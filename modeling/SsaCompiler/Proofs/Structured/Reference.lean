/-
# The meaning of structured statements

Statements declare integer variables, assign to them and print them, and they are put together to
blocks, choices, loops and switches, from which jumps lead out. What they mean is said here without
blocks of instructions: a statement changes the values of variables and what has been printed, and
says where control goes on behind it. A jump out of a loop is carried outwards until the loop is met.

A loop may go on forever. So a run is given a number of rounds: no loop is entered more often than
that, and a run that would have to is given up. More rounds do not change a run that is not given up.
-/

import Mathlib.Logic.Function.Basic
import SsaCompiler.Proofs.Scalar.Print

namespace SsaCompiler

/-! ### Statements -/

mutual

/-- Statements. -/
inductive Stmt where
  /-- No statement. -/
  | skip
  /-- A declaration of variables of one type, some with an initial value. -/
  | declare (ty : ScalarType) (vars : List (Name × Option Expr))
  /-- An assignment, of a value or of the result of an operator with the old value. -/
  | assign (op : Option BinaryOp) (x : Name) (value : Expr)
  | print (args : List Expr)
  | block (stmts : Stmts)
  | ifElse (cond : Expr) (thenDo elseDo : Stmt)
  | whileLoop (cond : Expr) (body : Stmt)
  | forLoop (init : Stmt) (cond : Option Expr) (step body : Stmt)
  | switch (value : Expr) (cases : Cases) (default : Stmt) (autoBreak : Bool)
  | breakOut
  | nextRound
  | leave (value : Expr)

/-- Statements one after the other. -/
inductive Stmts where
  | nil
  | cons (first : Stmt) (rest : Stmts)

/-- The cases of a switch. -/
inductive Cases where
  | nil
  | cons (value : Expr) (body : Stmt) (rest : Cases)

end

mutual

/-- The variables that a statement declares, with their types. -/
def Stmt.declared : Stmt → List (Name × ScalarType)
  | .declare ty vars => vars.map fun var => (var.1, ty)
  | .block stmts => stmts.declared
  | .ifElse _ thenDo elseDo => thenDo.declared ++ elseDo.declared
  | .whileLoop _ body => body.declared
  | .forLoop init _ step body => init.declared ++ (body.declared ++ step.declared)
  | .switch _ cases default _ => cases.declared ++ default.declared
  | .skip | .assign .. | .print _ | .breakOut | .nextRound | .leave _ => []

/-- The variables that statements declare. -/
def Stmts.declared : Stmts → List (Name × ScalarType)
  | .nil => []
  | .cons first rest => first.declared ++ rest.declared

/-- The variables that the bodies of cases declare. -/
def Cases.declared : Cases → List (Name × ScalarType)
  | .nil => []
  | .cons _ body rest => body.declared ++ rest.declared

end

/-! ### Runs -/

/-- Where control goes on behind a statement. -/
inductive Flow where
  /-- Behind the statement. -/
  | next
  /-- Behind the innermost loop or switch. -/
  | breakOut
  /-- In the next round of the innermost loop. -/
  | nextRound
  /-- In the caller, with a result. -/
  | leave (x : Scalar)
  deriving DecidableEq, Repr

/-- Why a run does not come to the end of a statement. -/
inductive Halt where
  /-- It divides by zero. -/
  | division
  /-- It has used up its rounds. -/
  | rounds
  deriving DecidableEq, Repr

/-- What statements work on. -/
structure Store where
  /-- The values of the variables. -/
  values : Valuation
  /-- What has been printed. -/
  output : String

/-- A run of statements. -/
abbrev Run (α : Type) : Type := EStateM Halt Store α

namespace Run

/-- What has a value only if it does not divide by zero. -/
def ofOption {α : Type} (f : Valuation → Option α) : Run α := fun st =>
  match f st.values with
  | some a => .ok a st
  | none => .error .division st

/-- What is made of a value may be made of it later. -/
theorem ofOption_map_bind {α β γ : Type} (f : Valuation → Option α) (g : α → β) (k : β → Run γ) :
    (ofOption (fun ρ => (f ρ).map g) >>= k) = ofOption f >>= fun a => k (g a) := by
  funext st
  change EStateM.bind (ofOption _) k st = EStateM.bind (ofOption f) _ st
  unfold EStateM.bind ofOption
  dsimp only
  cases f st.values <;> rfl

/-- A variable gets a value. -/
def assign (x : Name) (v : Scalar) : Run Unit :=
  modify fun st => { st with values := Function.update st.values x v }

/-- A value is stored in a variable. -/
def store (x : Name) (value : Run Scalar) : Run Flow := do
  assign x (← value)
  return .next

/-- A text is printed. -/
def print (text : String) : Run Unit := modify fun st => { st with output := st.output ++ text }

/-- One statement behind another, which control may also leave by a jump. -/
def andThen (x y : Run Flow) : Run Flow := do
  match ← x with
  | .next => y
  | flow => return flow

/-- A loop with a condition, a body and a step between two rounds. -/
def loop (cond : Run Bool) (body step : Run Flow) : Nat → Run Flow
  | 0 => throw .rounds
  | n + 1 => do
    if ← cond then
      match ← body with
      | .next | .nextRound => step.andThen (loop cond body step n)
      | .breakOut => return .next
      | .leave x => return .leave x
    else return .next

/-- A switch is left by a jump out of it. -/
def endSwitch (x : Run Flow) : Run Flow := do
  match ← x with
  | .breakOut => return .next
  | flow => return flow

end Run

namespace Expr

/-- The value. -/
def run (e : Expr) : Run Scalar := .ofOption fun ρ => e.eval ρ

/-- Whether a condition holds for values of the variables; one that is missing does. -/
def holds? (e : Option Expr) (ρ : Valuation) : Option Bool :=
  match e with
  | some e => (e.eval ρ).map Scalar.truth
  | none => some true

/-- Whether a condition holds. -/
def holds (e : Option Expr) : Run Bool := .ofOption (holds? e)

/-- The value that an assignment stores: the new one, or the result of an operator on the old one and
the new one. -/
def combined (op : Option BinaryOp) (old new : Scalar) : Option Scalar :=
  match op with
  | none => some new
  | some op => Scalar.binary op old new

/-- The value that an assignment gives to a variable, brought to the type of the variable. -/
def assigned (op : Option BinaryOp) (x : Name) (e : Expr) : Run Scalar :=
  .ofOption fun ρ => do
    let y ← e.eval ρ
    let z ← combined op (ρ x) y
    return z.cast (ρ x).ty

/-- The initial value of a variable of a type, zero if there is none. -/
def initial? (ty : ScalarType) (e : Option Expr) (ρ : Valuation) : Option Scalar :=
  match e with
  | some e => (e.eval ρ).map (Scalar.cast ty)
  | none => some ⟨ty, 0⟩

/-- The initial value of a variable. -/
def initial (ty : ScalarType) (e : Option Expr) : Run Scalar := .ofOption (initial? ty e)

/-- The line that a print prints. -/
def line (args : List Expr) : Run String :=
  .ofOption fun ρ => ((args.map Printed.value).mapM (Printed.text? ρ)).map Printed.line

end Expr

/-- Variables are declared one after the other. A variable is not known in its initial value. -/
def Stmt.declareAll (ty : ScalarType) : List (Name × Option Expr) → Run Flow
  | [] => return .next
  | (x, e) :: rest => (Run.store x (Expr.initial ty e)).andThen (Stmt.declareAll ty rest)

mutual

/-- A run of a statement in which no loop has more than a number of rounds. -/
def Stmt.exec (rounds : Nat) : Stmt → Run Flow
  | .skip => return .next
  | .declare ty vars => Stmt.declareAll ty vars
  | .assign op x e => Run.store x (Expr.assigned op x e)
  | .print args => do
    Run.print (← Expr.line args)
    return .next
  | .block stmts => stmts.exec rounds
  | .ifElse cond thenDo elseDo => do
    if ← Expr.holds cond then thenDo.exec rounds else elseDo.exec rounds
  | .whileLoop cond body => Run.loop (Expr.holds cond) (body.exec rounds) (return .next) rounds
  | .forLoop init cond step body =>
    (init.exec rounds).andThen
      (Run.loop (Expr.holds cond) (body.exec rounds) (step.exec rounds) rounds)
  | .switch value cases default autoBreak => do
    let x ← value.run
    Run.endSwitch (cases.choose rounds autoBreak (default.exec rounds) x)
  | .breakOut => return .breakOut
  | .nextRound => return .nextRound
  | .leave e => return .leave (← e.run)

/-- A run of statements one after the other. -/
def Stmts.exec (rounds : Nat) : Stmts → Run Flow
  | .nil => return .next
  | .cons first rest => (first.exec rounds).andThen (rest.exec rounds)

/-- A run from the first case on whose value is the one of the switch, or of the default. The value
of a case is brought to the type of the switch. -/
def Cases.choose (rounds : Nat) (autoBreak : Bool) (default : Run Flow) (x : Scalar) :
    Cases → Run Flow
  | .nil => default
  | .cons value body rest => do
    if (← value.run).cast x.ty = x then
      (body.exec rounds).andThen
        (if autoBreak then return .next else rest.fall rounds default)
    else rest.choose rounds autoBreak default x

/-- A run of the bodies of all cases and then of the default. -/
def Cases.fall (rounds : Nat) (default : Run Flow) : Cases → Run Flow
  | .nil => default
  | .cons _ body rest => (body.exec rounds).andThen (rest.fall rounds default)

end

/-! ### Outcomes of a body -/

/-- What becomes of a call: what has been printed in the end, and the result, none for a division by
zero. -/
structure CallOutcome where
  output : String
  result : Option Scalar
  deriving DecidableEq, Repr

/-- What becomes of a call with a result type, by the run of its body. Behind the end of the body the
result is zero. -/
def CallOutcome.ofRun? (ty : ScalarType) : EStateM.Result Halt Store Flow → Option CallOutcome
  | .ok (.leave x) st => some ⟨st.output, some (x.cast ty)⟩
  | .ok _ st => some ⟨st.output, some ⟨ty, 0⟩⟩
  | .error .division st => some ⟨st.output, none⟩
  | .error .rounds _ => none

namespace Stmt

/-- At the beginning every variable is zero. -/
def start (body : Stmt) : Valuation := fun x => ⟨(body.declared.lookup x).getD .int, 0⟩

/-- The outcome of a body of a function with a result type, none if the run is given up. -/
def outcome? (body : Stmt) (ty : ScalarType) (rounds : Nat) (output : String) : Option CallOutcome :=
  CallOutcome.ofRun? ty (body.exec rounds ⟨body.start, output⟩)

end Stmt

/-! ### More rounds -/

/-- A run that is not given up is the same as another one. -/
def Run.Refines {α : Type} (x y : Run α) : Prop :=
  ∀ st, (∃ st', x st = .error .rounds st') ∨ y st = x st

namespace Run

variable {α β : Type} {x x' y y' step step' : Run Flow} {cond : Run Bool}

theorem Refines.refl (x : Run α) : x.Refines x := fun _ => .inr rfl

theorem Refines.bind {x y : Run α} {f g : α → Run β} (h : x.Refines y)
    (hf : ∀ a, (f a).Refines (g a)) : (x >>= f).Refines (y >>= g) := by
  intro st
  change (∃ st', EStateM.bind x f st = _) ∨ EStateM.bind y g st = EStateM.bind x f st
  unfold EStateM.bind
  rcases h st with ⟨st', hrounds⟩ | hsame
  · rw [hrounds]
    exact .inl ⟨st', rfl⟩
  · rw [hsame]
    cases x st with
    | ok a st' => exact hf a st'
    | error e st' => exact .inr rfl

theorem Refines.andThen (hx : x.Refines x') (hy : y.Refines y') :
    (x.andThen y).Refines (x'.andThen y') :=
  hx.bind fun flow => by
    cases flow with
    | next => exact hy
    | _ => exact .refl _

theorem Refines.endSwitch (hx : x.Refines x') : (Run.endSwitch x).Refines (Run.endSwitch x') :=
  hx.bind fun _ => .refl _

theorem Refines.loop (hx : x.Refines x') (hstep : step.Refines step') {n n' : Nat} (hn : n ≤ n') :
    (Run.loop cond x step n).Refines (Run.loop cond x' step' n') := by
  induction n generalizing n' with
  | zero => exact fun st => .inl ⟨st, rfl⟩
  | succ n ih =>
      obtain ⟨n', rfl⟩ : ∃ k, n' = k + 1 := ⟨n' - 1, by omega⟩
      have hrest := hstep.andThen (ih (Nat.le_of_succ_le_succ hn))
      refine (Refines.refl cond).bind fun holds => ?_
      cases holds with
      | false => exact .refl _
      | true =>
          refine hx.bind fun flow => ?_
          cases flow with
          | next => exact hrest
          | nextRound => exact hrest
          | breakOut => exact .refl _
          | leave x => exact .refl _

end Run

section

variable {n n' : Nat}

mutual

/-- A run of a statement that is not given up is the same with more rounds. -/
theorem Stmt.refines (hn : n ≤ n') : ∀ stmt : Stmt, (stmt.exec n).Refines (stmt.exec n')
  | .skip | .declare .. | .assign .. | .print _ | .breakOut | .nextRound | .leave _ => .refl _
  | .block stmts => Stmts.refines hn stmts
  | .ifElse cond thenDo elseDo => .bind (.refl _) fun holds => by
      cases holds with
      | true => exact Stmt.refines hn thenDo
      | false => exact Stmt.refines hn elseDo
  | .whileLoop cond body => .loop (Stmt.refines hn body) (.refl _) hn
  | .forLoop init cond step body =>
      (Stmt.refines hn init).andThen (.loop (Stmt.refines hn body) (Stmt.refines hn step) hn)
  | .switch value cases default autoBreak => .bind (.refl _) fun x =>
      (Cases.refines_choose hn autoBreak (Stmt.refines hn default) x cases).endSwitch

theorem Stmts.refines (hn : n ≤ n') : ∀ stmts : Stmts, (stmts.exec n).Refines (stmts.exec n')
  | .nil => .refl _
  | .cons first rest => (Stmt.refines hn first).andThen (Stmts.refines hn rest)

theorem Cases.refines_choose (hn : n ≤ n') (autoBreak : Bool) {default default' : Run Flow}
    (hdefault : default.Refines default') (x : Scalar) : ∀ cases : Cases,
    (cases.choose n autoBreak default x).Refines (cases.choose n' autoBreak default' x)
  | .nil => hdefault
  | .cons value body rest => .bind (.refl _) fun y => by
      split
      · refine (Stmt.refines hn body).andThen ?_
        cases autoBreak with
        | true => exact .refl _
        | false => exact Cases.refines_fall hn hdefault rest
      · exact Cases.refines_choose hn autoBreak hdefault x rest

theorem Cases.refines_fall (hn : n ≤ n') {default default' : Run Flow}
    (hdefault : default.Refines default') : ∀ cases : Cases,
    (cases.fall n default).Refines (cases.fall n' default')
  | .nil => hdefault
  | .cons _ body rest => (Stmt.refines hn body).andThen (Cases.refines_fall hn hdefault rest)

end

/-- An outcome does not depend on how many rounds there are. -/
theorem Stmt.outcome?_of_le {body : Stmt} {ty : ScalarType} {output : String} {o : CallOutcome}
    (h : body.outcome? ty n output = some o) (hn : n ≤ n') : body.outcome? ty n' output = some o := by
  unfold outcome? at h ⊢
  rcases Stmt.refines hn body ⟨body.start, output⟩ with ⟨st', hrounds⟩ | hsame
  · rw [hrounds] at h
    cases h
  · rwa [hsame]

end

/-! ### Statements in program trees -/

/-- A variable of a declaration is a given one. -/
def Stmt.SpelledVar (scope : Name → Prop) (var : Name × Option Expr) (init : VarInit Node) : Prop :=
  init.name = var.1 ∧ scope var.1 ∧ Option.Rel (fun e node => e.Spelled scope node) var.2 init.init

mutual

/-- A child in a program tree is a given statement over the variables of a scope. -/
def Stmt.Spelled (scope : Name → Prop) : Stmt → Option Node → Prop
  | .skip, child => child = none
  | .declare ty vars, child => ∃ node inits, child = some node ∧
      node.kind = .varDecl (.prim ty.prim) inits ∧ List.Forall₂ (Stmt.SpelledVar scope) vars inits
  | .assign op x e, child => (∀ op' ∈ op, op'.isScalar = true) ∧ scope x ∧
      ∃ node target value, child = some node ∧ node.kind = .assign op (some target) (some value) ∧
        target.kind = .ident x ∧ e.Spelled scope value
  | .print args, child => ∃ node nodes, child = some node ∧ node.kind = .print (nodes.map some) ∧
      List.Forall₂ (fun e node => e.Spelled scope node) args nodes
  | .block stmts, child => ∃ node children, child = some node ∧ node.kind = .block children ∧
      stmts.Spelled scope children
  | .ifElse cond thenDo elseDo, child => ∃ node test thenChild elseChild, child = some node ∧
      node.kind = .ifElse (some test) thenChild elseChild ∧ cond.Spelled scope test ∧
        thenDo.Spelled scope thenChild ∧ elseDo.Spelled scope elseChild
  | .whileLoop cond body, child => ∃ node test inner, child = some node ∧
      node.kind = .whileLoop (some test) inner ∧ cond.Spelled scope test ∧ body.Spelled scope inner
  | .forLoop init cond step body, child => ∃ node before test after inner, child = some node ∧
      node.kind = .forLoop before test after inner ∧ init.Spelled scope before ∧
        Option.Rel (fun e node => e.Spelled scope node) cond test ∧ step.Spelled scope after ∧
          body.Spelled scope inner
  | .switch value cases default autoBreak, child => ∃ node scrutinee arms other, child = some node ∧
      node.kind = .switch (some scrutinee) arms other autoBreak ∧ value.Spelled scope scrutinee ∧
        cases.Spelled scope arms ∧ default.Spelled scope other
  | .breakOut, child => ∃ node, child = some node ∧ node.kind = .breakStmt
  | .nextRound, child => ∃ node, child = some node ∧ node.kind = .continueStmt
  | .leave e, child => ∃ node value, child = some node ∧ node.kind = .returnStmt (some value) ∧
      e.Spelled scope value

/-- Children are given statements. -/
def Stmts.Spelled (scope : Name → Prop) : Stmts → List (Option Node) → Prop
  | .nil, children => children = []
  | .cons first rest, children => ∃ child others, children = child :: others ∧
      first.Spelled scope child ∧ rest.Spelled scope others

/-- Children are given cases. -/
def Cases.Spelled (scope : Name → Prop) : Cases → List (SwitchCase Node) → Prop
  | .nil, children => children = []
  | .cons value body rest, children => ∃ node arm others, children = arm :: others ∧
      arm.value = some node ∧ value.Spelled scope node ∧ body.Spelled scope arm.body ∧
        rest.Spelled scope others

end

end SsaCompiler
