/-
# Objects

An object is declared in two steps: its members and the signatures of its methods first, the
bodies of its methods afterwards. A member may point to the object that is being declared,
but it cannot contain it.
-/

import SsaCompiler.Lower.Callable

namespace SsaCompiler

namespace Lower

/-- Gives an object its members and marks it as complete. -/
def completeObject (ty : TypeId) (members : List (Name × TypeId)) : Lower Unit := do
  let _ ← Build.setStructBody ty (members.map Prod.snd)
  match (← symbols).objectByType? ty with
  | some _ =>
    modifySymbols (·.modifyByType ty fun info =>
      { info with members := members, complete := true })
  | none => abandon (.missingObject (← describe ty))

end Lower

namespace Recur

variable (r : Recur)

/-- The type of a member of an object, given the members before it. -/
def memberType (owner : TypeId) (known : List (Name × TypeId)) (field : Field) (span : Span) :
    Attempt TypeId := do
  let ty ← r.type span field.ty
  let name ← Lower.nameText field.name
  if ty = owner then
    let owner ← Lower.describe owner
    Attempt.reject .structural s!"member '{name}' of '{owner}' contains its own object by value"
      span
  else if known.any (·.1 = field.name) then
    Attempt.reject .structural s!"member '{name}' is declared twice" span
  else return ty

/-- The members of an object; one that fails is left out. -/
def memberTypes (owner : TypeId) (span : Span) (known : List (Name × TypeId)) :
    List Field → Lower (List (Name × TypeId))
  | [] => return known
  | field :: rest => do
    match ← (r.memberType owner known field span).run with
    | some ty => memberTypes owner span (known ++ [(field.name, ty)]) rest
    | none => memberTypes owner span known rest

/-- Gives an object the members of its declaration. -/
def layout (ty : TypeId) (members : List Field) (span : Span) : Lower Unit := do
  let members ← r.memberTypes ty span [] members
  Lower.completeObject ty members

/-- Declares what stands in the body of an object. -/
def declareMember (object : TypeId) (node : Node) : Lower Unit := do
  match node.kind with
  | .function decl => discard (r.declareMethod node.id object decl node.span).run
  | .constructor decl => discard (r.declareConstructor node.id object decl node.span).run
  | .operator decl => discard (r.declareOperator node.id decl node.span).run
  | other =>
    let label := other.label
    Lower.report .structural s!"{label} cannot appear in an object body" node.span

/-- Declares everything in the body of an object. A missing entry crashes. -/
def declareMembers (object : TypeId) : List (Option Node) → Lower Unit
  | [] => return ()
  | none :: _ => throw Crash.outOfRange
  | some node :: rest => do
    r.declareMember object node
    declareMembers object rest

/-- Lowers the bodies of everything in the body of an object, until the walk ends early. -/
def defineMembers : List (Option Node) → Lower Unit
  | [] => return ()
  | method :: rest => do
    if ← Lower.isAbandoned then return ()
    match method with
    | some node => r.define node.id
    | none => pure ()
    defineMembers rest

/-- Declares an object with its members and the signatures of its methods. -/
def declareObject (node : Nat) (decl : ObjectDecl Node) (span : Span) : Attempt Unit := do
  if ← Lower.markDeclared node then
    let ty ← Lower.namedType decl.name true span
    let complete := match (← Lower.symbols).object? decl.name with
      | some info => info.complete
      | none => false
    if complete then
      let text ← Lower.nameText decl.name
      Attempt.reject .structural s!"object '{text}' is already declared" span
    r.layout ty decl.members span
    r.declareMembers ty decl.methods

/-- An object of the module. -/
def object (node : Nat) (decl : ObjectDecl Node) (span : Span) : Lower Unit := do
  match ← Lower.func with
  | some _ => Lower.report .structural "objects must be declared at module scope" span
  | none =>
    let _ ← (r.declareObject node decl span).run
    r.defineMembers decl.methods

end Recur

end SsaCompiler
