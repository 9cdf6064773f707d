/-
# Statements

Blocks, branches, loops, switches and jumps. A loop or a switch puts the targets of its
jumps around its body and takes them away afterwards, with all that the body may have left there.
Behind a jump lowering goes on in a block that control does not reach.
-/

import SsaCompiler.Lower.Condition

namespace SsaCompiler

/-- Lowers something inside a loop or a switch. Afterwards there are as many loops and switches as
before. -/
def Lower.withTargets (targets : JumpTargets) (body : Lower Unit) : Lower Unit := do
  let depth := (← get).pass.loops.length
  Lower.modifyPass fun p => { p with loops := targets :: p.loops }
  body
  Lower.modifyPass fun p => { p with loops := p.loops.drop (p.loops.length - depth) }

namespace Recur

variable (r : Recur)

/-- Statements one after the other, until the walk ends early. -/
def sequence : List (Option Node) → Lower Unit
  | [] => return ()
  | stmt :: rest => do
    if ← Lower.isAbandoned then return ()
    r.statement stmt
    sequence rest

/-- A statement in a block of its own, from which control goes on to another block. -/
def armAt (block : BlockId) (stmt : Option Node) (next : BlockId) : Lower Unit := do
  Build.positionAtEnd block
  r.statement stmt
  Lower.brIfOpen next

/-- A choice between two statements, of which the second may be missing. -/
def ifElse (cond thenBranch elseBranch : Option Node) : Lower Unit := do
  let thenBlock ← Lower.appendBlock "if.then"
  match elseBranch with
  | some stmt =>
    let elseBlock ← Lower.appendBlock "if.else"
    let endBlock ← Lower.appendBlock "if.end"
    r.condition cond thenBlock elseBlock
    r.armAt thenBlock thenBranch endBlock
    r.armAt elseBlock (some stmt) endBlock
    Build.positionAtEnd endBlock
  | none =>
    let endBlock ← Lower.appendBlock "if.end"
    r.condition cond thenBlock endBlock
    r.armAt thenBlock thenBranch endBlock
    Build.positionAtEnd endBlock

/-- A loop that tests its condition before every round. -/
def whileLoop (cond body : Option Node) : Lower Unit := do
  let condBlock ← Lower.appendBlock "while.cond"
  let bodyBlock ← Lower.appendBlock "while.body"
  let endBlock ← Lower.appendBlock "while.end"
  Build.br condBlock
  Build.positionAtEnd condBlock
  r.condition cond bodyBlock endBlock
  Build.positionAtEnd bodyBlock
  Lower.withTargets ⟨endBlock, some condBlock⟩ (r.statement body)
  Lower.brIfOpen condBlock
  Build.positionAtEnd endBlock

/-- A loop with a start, a condition and a step, each of which may be missing. Without a
condition it goes on forever; the next round starts with the step. -/
def forLoop (init cond step body : Option Node) : Lower Unit := do
  r.statement init
  let condBlock ← Lower.appendBlock "for.cond"
  let bodyBlock ← Lower.appendBlock "for.body"
  let stepBlock ← Lower.appendBlock "for.step"
  let endBlock ← Lower.appendBlock "for.end"
  Build.br condBlock
  Build.positionAtEnd condBlock
  match cond with
  | some node => r.condition (some node) bodyBlock endBlock
  | none => Build.br bodyBlock
  Build.positionAtEnd bodyBlock
  Lower.withTargets ⟨endBlock, some stepBlock⟩ (r.statement body)
  Lower.brIfOpen stepBlock
  Build.positionAtEnd stepBlock
  r.statement step
  Lower.brIfOpen condBlock
  Build.positionAtEnd endBlock

/-! ### Switches -/

/-- A block for the body of every case. -/
def caseBlocks : List (SwitchCase Node) → Lower (List (SwitchCase Node × BlockId))
  | [] => return []
  | c :: rest => do
    let b ← Lower.appendBlock "switch.case"
    return (c, b) :: (← caseBlocks rest)

/-- Tests the value of a switch against the cases, one after the other. A case whose value
fails is never chosen. -/
def caseTests (value : ValueId) (ty : TypeId) : List (SwitchCase Node × BlockId) → Lower Unit
  | [] => return ()
  | (c, block) :: rest => do
    let next ← Lower.appendBlock "switch.test"
    let wanted ← OptionT.run do
      let v ← r.value c.value
      Lower.coerce v ty (childSpan c.value)
    match wanted with
    | some v => Build.condBr (← Build.icmp .eq value v) block next
    | none => Build.br next
    Build.positionAtEnd next
    caseTests value ty rest

/-- The bodies of the cases. A body that does not jump goes on behind the switch when
`autoBreak` is set, otherwise in the next body and from the last one in the default. -/
def caseBodies (autoBreak : Bool) (endBlock defaultBlock : BlockId) :
    List (SwitchCase Node × BlockId) → Lower Unit
  | [] => return ()
  | (c, block) :: rest => do
    let next := match rest with
      | (_, following) :: _ => following
      | [] => defaultBlock
    r.armAt block c.body (if autoBreak then endBlock else next)
    caseBodies autoBreak endBlock defaultBlock rest

/-- A choice among cases by the value of an integer. -/
def switch (scrutinee : Option Node) (cases : List (SwitchCase Node)) (default : Option Node)
    (autoBreak : Bool) (span : Span) : Attempt Unit := do
  let value ← r.value scrutinee
  let ty ← Build.typeOf value
  if ¬ (← Build.typeAt ty).isInt then
    let found ← Lower.describe ty
    Attempt.reject .typeMismatch s!"cannot switch on a value of type '{found}'" span
  let endBlock ← Lower.appendBlock "switch.end"
  let defaultBlock ← if default.isSome then Lower.appendBlock "switch.default" else pure endBlock
  let arms ← OptionT.lift (caseBlocks cases)
  r.caseTests value ty arms
  Build.br defaultBlock
  Lower.withTargets ⟨endBlock, none⟩ do
    r.caseBodies autoBreak endBlock defaultBlock arms
    if default.isSome then r.armAt defaultBlock default endBlock
  Build.positionAtEnd endBlock

end Recur

/-! ### Jumps -/

namespace Lower

/-- Leaves the innermost loop or switch. -/
def breakOut (span : Span) : Lower Unit := do
  match (← get).pass.loops with
  | targets :: _ =>
    Build.br targets.breakTo
    startDeadBlock
  | [] => report .structural "'break' outside a loop or switch" span

/-- Starts the next round of the innermost loop; switches are passed over. -/
def continueLoop (span : Span) : Lower Unit := do
  match (← get).pass.loops.findSome? (·.continueTo) with
  | some target =>
    Build.br target
    startDeadBlock
  | none => report .structural "'continue' outside a loop" span

/-- Returns from a function that falls off its end: nothing, null or zero. -/
def defaultReturn (f : FunctionState) : Build Unit := do
  if (← Build.typeAt f.ret) = .void then Build.ret none
  else if f.retRef then
    let ptr ← Build.pointerType f.ret
    Build.ret (some (← Build.constNull ptr))
  else Build.ret (some (← Build.constZero f.ret))

end Lower

namespace Recur

variable (r : Recur)

/-- The value that a return hands back: an address for a reference, otherwise a value of the
result type. -/
def returnedValue (f : FunctionState) (value : Node) (span : Span) : Attempt ValueId := do
  if f.retRef then
    let op ← r.required (some value)
    let found ← op.ty
    if found ≠ f.ret then
      let wanted ← Lower.describe f.ret
      let found ← Lower.describe found
      Attempt.reject .typeMismatch s!"expected '{wanted}&', found '{found}'" span
    else op.address
  else
    let v ← r.value (some value)
    Lower.coerce v f.ret span

/-- Returns from the current function. -/
def returnFrom (value : Option Node) (span : Span) : Attempt Unit := do
  let f ← Attempt.ofOption (← get).pass.func
  let symbol := f.symbol
  match value, decide ((← Build.typeAt f.ret) = .void) with
  | none, true => Build.ret none
  | none, false => Attempt.reject .typeMismatch s!"'{symbol}' must return a value" span
  | some _, true => Attempt.reject .typeMismatch s!"'{symbol}' returns 'void'" span
  | some node, false => Build.ret (some (← r.returnedValue f node span))
  Lower.startDeadBlock

end Recur

end SsaCompiler
