/-
# Overloads

Callables that share a name are told apart by the types of their parameters. An argument
fits a parameter exactly when the types are equal, and loosely when one of the two types
is a pointer to the other. The overloads that fit exactly in every position come first;
only without one do those that fit loosely count. What is chosen has to be the only
candidate.
-/

import SsaCompiler.Ir.Handle

namespace SsaCompiler

/-- The types of exceptions that may come out of something, each once, in the order in
which they were first met. -/
abbrev ThrowSet : Type := List TypeId

/-- Adds the types that are new, in order. -/
def ThrowSet.merge (known : ThrowSet) (new : List TypeId) : ThrowSet :=
  new.foldl (fun set ty => if set.contains ty then set else set ++ [ty]) known

/-- What is known about types when arguments are compared with parameters: what a
pointer type points to. -/
abbrev TypeRelation : Type := TypeId → Option TypeId

/-- Whether two types stand in for each other: they are equal, or one is a pointer to the
other. -/
def TypeRelation.aliases (pointee : TypeRelation) (a b : TypeId) : Bool :=
  a == b || pointee a == some b || pointee b == some a

/-- A parameter as callers see it. A reference to a type has that type and is passed as
an address. -/
structure ParamSig where
  /-- The type of the argument. -/
  ty : TypeId
  /-- Whether the address of the argument is passed. -/
  isReference : Bool
  deriving DecidableEq, Repr, Inhabited

namespace ParamSig

/-- A parameter that takes a value. -/
def value (ty : TypeId) : ParamSig := ⟨ty, false⟩

/-- A parameter that takes a reference. -/
def reference (ty : TypeId) : ParamSig := ⟨ty, true⟩

end ParamSig

/-- One callable among those with its name. -/
structure Overload where
  /-- The name of the function in the module. -/
  symbol : String
  /-- The parameters in order. -/
  params : List ParamSig
  /-- The result type. -/
  ret : TypeId
  /-- Whether the result is a reference. -/
  retRef : Bool
  /-- The function in the module. -/
  function : FunctionId
  /-- The types of exceptions that may come out of a call. -/
  throws : ThrowSet
  deriving DecidableEq, Repr, Inhabited

/-- The outcome of a search among candidates. -/
inductive Resolution where
  /-- The only best candidate, by its position. -/
  | found (index : Nat)
  | notFound
  /-- Several candidates are equally good. -/
  | ambiguous (count : Nat)
  deriving DecidableEq, Repr, Inhabited

/-- The position of the candidate that was found. -/
def Resolution.found? : Resolution → Option Nat
  | found i => some i
  | _ => none

/-- How well arguments fit parameters. -/
inductive Tier where
  | exact
  | aliased
  deriving DecidableEq, Repr, Inhabited

namespace Tier

/-- The worse of two tiers. -/
def worse : Tier → Tier → Tier
  | exact, exact => exact
  | _, _ => aliased

/-- How well one argument fits one parameter. -/
def ofPosition (pointee : TypeRelation) (arg param : TypeId) : Option Tier :=
  if arg = param then some exact
  else if pointee.aliases arg param then some aliased
  else none

/-- How well arguments fit parameters: as well as the worst of the positions. A wrong
number of arguments does not fit at all. -/
def ofMatch (pointee : TypeRelation) : List TypeId → List TypeId → Option Tier
  | [], [] => some exact
  | arg :: args, param :: params => do
    let here ← ofPosition pointee arg param
    let rest ← ofMatch pointee args params
    return here.worse rest
  | _, _ => none

end Tier

/-- What a pass over the candidates keeps: the best tier so far and the candidates that have it. -/
structure Lead where
  /-- The best tier, once a candidate fits. -/
  best : Option Tier
  /-- The positions of the candidates with that tier. -/
  winners : List Nat

namespace Lead

/-- The next candidate joins those with the best tier, takes their place or is passed over. -/
def meet (lead : Lead) (i : Nat) : Option Tier → Lead
  | none => lead
  | some t =>
    match lead.best, t with
    | some .exact, .aliased => lead
    | some .exact, .exact => { lead with winners := lead.winners ++ [i] }
    | some .aliased, .aliased => { lead with winners := lead.winners ++ [i] }
    | _, _ => ⟨some t, [i]⟩

/-- A pass over the candidates, counted from `start`. -/
def pass (lead : Lead) (start : Nat) : List (Option Tier) → Lead
  | [] => lead
  | t :: rest => (lead.meet start t).pass (start + 1) rest

end Lead

/-- The choice among equally good candidates. -/
def Resolution.ofPositions : List Nat → Resolution
  | [] => notFound
  | [only] => found only
  | many => ambiguous many.length

/-- The choice among candidates by how well they fit, in one pass. -/
def Resolution.pick (tiers : List (Option Tier)) : Resolution :=
  ofPositions ((Lead.mk none []).pass 0 tiers).winners

/-- The callables with one name, in the order in which they were declared. -/
structure OverloadSet where
  /-- The callables. -/
  overloads : List Overload
  deriving DecidableEq, Repr, Inhabited

namespace OverloadSet

/-- The set without callables. -/
def empty : OverloadSet := ⟨[]⟩

/-- The number of callables. -/
def size (s : OverloadSet) : Nat := s.overloads.length

/-- Whether two callables take the same types, so that no call could tell them apart.
Whether a parameter is a reference makes no difference. -/
def sameTypes (a b : Overload) : Bool := a.params.map (·.ty) == b.params.map (·.ty)

/-- Adds a callable and answers with its position; none when the set has one that takes
the same types. -/
def insert (s : OverloadSet) (o : Overload) : Option (Nat × OverloadSet) :=
  if s.overloads.any (sameTypes · o) then none
  else some (s.overloads.length, ⟨s.overloads ++ [o]⟩)

/-- The callable for given argument types. -/
def resolve (s : OverloadSet) (pointee : TypeRelation) (args : List TypeId) : Resolution :=
  Resolution.pick (s.overloads.map fun o => Tier.ofMatch pointee args (o.params.map (·.ty)))

/-- The callable at a position. -/
def get? (s : OverloadSet) (index : Nat) : Option Overload := s.overloads[index]?

/-- Changes the callable at a position. -/
def modify (s : OverloadSet) (index : Nat) (f : Overload → Overload) : OverloadSet :=
  ⟨s.overloads.modify index f⟩

/-- The position of the callable with a given function. -/
def indexOf? (s : OverloadSet) (f : FunctionId) : Option Nat :=
  s.overloads.findIdx? (·.function = f)

/-- The callable with a given function. -/
def byFunction? (s : OverloadSet) (f : FunctionId) : Option Overload :=
  s.overloads.find? (·.function = f)

/-- Changes the callable with a given function. -/
def modifyByFunction (s : OverloadSet) (f : FunctionId) (g : Overload → Overload) :
    OverloadSet :=
  match s.indexOf? f with
  | some i => s.modify i g
  | none => s

end OverloadSet

end SsaCompiler
