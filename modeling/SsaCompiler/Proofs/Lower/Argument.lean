/-
# Arguments have the types of their parameters

Each argument of a call is turned into what the parameter takes: a value of the type of the
parameter, or an address of such a value for a reference. This holds of every argument, whether
it has the type of the parameter, points to it, is what a pointer parameter points to, or converts
to it, as an index does.

One case is missed. A reference parameter gets the address of the argument also when the argument
has another type, so that a reference to a pointer gets the address of what a pointer should
point to, and a reference to a `long` the address of a narrower index.
-/

import SsaCompiler.Proofs.Lower.Runtime
import SsaCompiler.Proofs.Symbols.Operators

namespace SsaCompiler

open Lower

variable {m m' : Module} {s s' : Lowering} {v this : ValueId} {ty object : TypeId} {span : Span}

/-! ### Parameters -/

/-- What a type points to does not change. -/
theorem TypeTable.Develops.pointee?_eq {t t' : TypeTable} (ht : t.Develops t') (hty : t.Has ty) :
    t'.pointee? ty = t.pointee? ty := by
  obtain ⟨old, hold⟩ := hty
  obtain ⟨new, hnew, hbecomes⟩ := ht.get_of_ok hold
  unfold TypeTable.pointee?
  rw [hold, hnew]
  rcases hbecomes with rfl | ⟨_, _, rfl, rfl⟩ <;> rfl

namespace ParamSig

/-- A value of exactly the type that a parameter has in the module. -/
def Receives (p : ParamSig) (m : Module) (v : ValueId) : Prop :=
  if p.isReference then m.valueType v = .ok (.pointer p.ty) else m.typeOf v = .ok p.ty

/-- The type of a parameter in the module: a reference is a pointer. -/
def Declares (p : ParamSig) (t : TypeTable) (id : TypeId) : Prop :=
  if p.isReference then t.get id = .ok (.pointer p.ty) else id = p.ty

/-- A reference to a type that an argument neither has nor points to. -/
def Misses (p : ParamSig) (t : TypeTable) (ty : TypeId) : Prop :=
  p.isReference = true ∧ ty ≠ p.ty ∧ t.pointee? ty ≠ some p.ty

/-- A value is passed for an argument of a type: one that the parameter receives, or the address
of an argument that misses the parameter. -/
structure Passes (p : ParamSig) (m : Module) (ty : TypeId) (v : ValueId) : Prop where
  has : m.types.Has ty
  receives : ¬ p.Misses m.types ty → p.Receives m v
  misses : p.Misses m.types ty → m.valueType v = .ok (.pointer ty)

variable {p : ParamSig}

/-- A received value keeps its type. -/
theorem Receives.mono (h : p.Receives m v) (hm : m.Evolves m') : p.Receives m' v := by
  unfold Receives at *
  split
  · rename_i hreference
    rw [if_pos hreference] at h
    exact hm.valueType_pointer h
  · rename_i hvalue
    rw [if_neg hvalue] at h
    exact hm.typeOf h

/-- What is passed is passed later. -/
theorem Passes.mono (h : p.Passes m ty v) (hm : m.Evolves m') : p.Passes m' ty v := by
  have hmisses : p.Misses m'.types ty ↔ p.Misses m.types ty := by
    unfold Misses
    rw [hm.types.pointee?_eq h.has]
  refine ⟨hm.types.has h.has, fun hfits => ?_, fun hmissed => ?_⟩
  · exact (h.receives fun hmissed => hfits (hmisses.2 hmissed)).mono hm
  · exact hm.valueType_pointer (h.misses (hmisses.1 hmissed))

/-- The type of a parameter stays the same. -/
theorem Declares.mono {t t' : TypeTable} {id : TypeId} (h : p.Declares t id) (ht : t.Develops t') :
    p.Declares t' id := by
  unfold Declares at *
  split
  · rename_i hreference
    rw [if_pos hreference] at h
    exact ht.get_of_isOpaque_eq_false h rfl
  · rename_i hvalue
    rwa [if_neg hvalue] at h

/-- What is passed has the type of the parameter, unless the argument misses it. -/
theorem Passes.typeOf_iff {id : TypeId} (h : p.Passes m ty v)
    (hid : p.Declares m.types id) : m.typeOf v = .ok id ↔ ¬ p.Misses m.types ty := by
  constructor
  · intro hv hmissed
    have hptr : m.valueType v = .ok (.pointer p.ty) :=
      Module.valueType_of_typeOf hv (by rwa [Declares, if_pos hmissed.1] at hid)
    cases hptr.symm.trans (h.misses hmissed)
    exact hmissed.2.1 rfl
  · intro hfits
    have hv := h.receives hfits
    unfold Receives at hv
    unfold Declares at hid
    split at hv
    · rename_i hreference
      rw [if_pos hreference] at hid
      exact Module.typeOf_of_valueType hv hid rfl
    · rename_i hvalue
      rw [if_neg hvalue] at hid
      exact hid ▸ hv

end ParamSig

namespace Lower

/-- What a type points to can be asked. -/
theorem pointee?_eq_ok {target : Option TypeId} (h : pointee? ty m = .ok (target, m')) :
    m' = m ∧ m.types.pointee? ty = target ∧ m.types.Has ty := by
  obtain ⟨t, m₁, hask, hend⟩ := bind_eq_ok_iff.1 h
  obtain ⟨hget, rfl⟩ := Build.ask_eq_ok_iff.1 hask
  cases hend
  refine ⟨rfl, ?_, t, hget⟩
  rw [TypeTable.pointee?, hget]

/-- A pointer as the type table has it. -/
theorem get_of_pointee? {t : TypeTable} {target : TypeId} (h : t.pointee? ty = some target) :
    t.get ty = .ok (.pointer target) := by
  unfold TypeTable.pointee? at h
  split at h
  · rename_i ty' hget
    cases ty' <;> cases h
    exact hget
  · cases h

/-- An argument is turned into a value of exactly the type of the parameter. Only for a reference
that the argument misses, it is the address of the argument. -/
theorem passes_adaptArg {arg : Operand} {p : ParamSig} {span : Span} (hs : s.Known)
    (harg : arg.StandsFor s.module ty)
    (h : adaptArg arg p span s = .ok (some v, s')) : p.Passes s'.module ty v := by
  have hlater := Stepwise.later (x := (adaptArg arg p span).run) hs h
  obtain ⟨ty', m, hask, htarget⟩ := Attempt.bind_build h
  cases harg.ty_eq.symm.trans hask
  obtain ⟨target, m₁, hpointee, hcase⟩ := Attempt.bind_build htarget
  obtain ⟨rfl, rfl, hhas⟩ := pointee?_eq_ok hpointee
  have hsame := hlater.module.types.pointee?_eq hhas
  suffices hpasses : (¬ p.Misses s'.module.types ty → p.Receives s'.module v) ∧
      (p.Misses s'.module.types ty → s'.module.valueType v = .ok (.pointer ty)) from
    ⟨hlater.module.types.has hhas, hpasses.1, hpasses.2⟩
  unfold ParamSig.Receives ParamSig.Misses
  rw [hsame]
  split at hcase
  · rename_i hreference
    rw [if_pos hreference]
    split at hcase
    · rename_i hpoints
      -- The argument points to what is referred to.
      obtain ⟨_, hload, ⟨⟩⟩ := Attempt.lift_eq_ok hcase
      refine ⟨fun _ => Module.valueType_of_typeOf (harg.typeOf_load hload) ?_,
        fun hmisses => (hmisses.2.2 hpoints).elim⟩
      exact hlater.module.types.get_of_isOpaque_eq_false (get_of_pointee? hpoints) rfl
    · rename_i hpoints
      obtain ⟨_, haddress, ⟨⟩⟩ := Attempt.lift_eq_ok hcase
      have hv := harg.valueType_address hs haddress
      refine ⟨fun hfits => ?_, fun _ => hv⟩
      by_cases hty : ty = p.ty
      · exact hty ▸ hv
      · exact (hfits ⟨hreference, hty, hpoints⟩).elim
  · rename_i hvalue
    rw [if_neg hvalue]
    refine ⟨fun _ => ?_, fun hmisses => (hvalue hmisses.1).elim⟩
    split at hcase
    · rename_i hty
      obtain ⟨_, hload, ⟨⟩⟩ := Attempt.lift_eq_ok hcase
      exact hty ▸ harg.typeOf_load hload
    split at hcase
    · rename_i hpoints
      obtain ⟨address, s₁, hload, hloaded⟩ := Attempt.bind_lift hcase
      have h₁ := Stepwise.later hs hload
      have haddress := Module.valueType_of_typeOf (harg.typeOf_load hload)
        (h₁.module.types.get_of_isOpaque_eq_false (get_of_pointee? hpoints) rfl)
      obtain ⟨_, m₂, hloaded', ⟨⟩, rfl⟩ := Attempt.build_eq_ok hloaded
      exact Build.typeOf_of_load haddress hloaded'
    obtain ⟨inner, m₂, hask', hcase'⟩ := Attempt.bind_build hcase
    obtain ⟨rfl, rfl, -⟩ := pointee?_eq_ok hask'
    split at hcase'
    · rename_i hpoints
      obtain ⟨_, haddress, ⟨⟩⟩ := Attempt.lift_eq_ok hcase'
      exact Module.typeOf_of_valueType (harg.valueType_address hs haddress)
        (hlater.module.types.get_of_isOpaque_eq_false (get_of_pointee? hpoints) rfl) rfl
    · obtain ⟨value, s₁, hload, hcoerce⟩ := Attempt.bind_lift hcase'
      have h₁ := Stepwise.later hs hload
      exact typeOf_of_coerce (h₁.known hs) hcoerce

/-- Values are passed for arguments, each to its parameter. -/
inductive PassesAll (m : Module) : List ParamSig → List TypeId → List ValueId → Prop where
  | nil : PassesAll m [] [] []
  | cons {p : ParamSig} {params : List ParamSig} {ty : TypeId} {types : List TypeId} {v : ValueId}
      {values : List ValueId} (first : p.Passes m ty v) (rest : PassesAll m params types values) :
      PassesAll m (p :: params) (ty :: types) (v :: values)

/-- The arguments are turned into values one after the other. -/
theorem passesAll_adaptEach {args : List Operand} {params : List ParamSig} {types : List TypeId}
    {values : List ValueId} {span : Span} (hs : s.Known)
    (hargs : List.Forall₂ (Operand.StandsFor s.module) args types)
    (hlength : args.length = params.length)
    (h : adaptEach args params span s = .ok (some values, s')) :
    PassesAll s'.module params types values := by
  induction args generalizing params types values s with
  | nil =>
      cases hargs
      cases params with
      | nil =>
          cases h
          exact .nil
      | cons p params => cases hlength
  | cons arg args ih =>
      obtain ⟨ty, rest, harg, hothers, rfl⟩ := List.forall₂_cons_left_iff.1 hargs
      cases params with
      | nil => cases hlength
      | cons p params =>
          obtain ⟨v, s₁, hadapt, hrest⟩ := Attempt.bind_eq_some h
          have h₁ := Stepwise.later (x := (adaptArg arg p span).run) hs hadapt
          obtain ⟨vs, s₂, heach, hend⟩ := Attempt.bind_eq_some hrest
          have h₂ := Stepwise.later (x := (adaptEach args params span).run) (h₁.known hs) heach
          cases hend
          have htypes : List.Forall₂ (Operand.StandsFor s₁.module) args rest :=
            hothers.imp fun _ _ hstands => hstands.mono h₁.module
          exact .cons ((passes_adaptArg hs harg hadapt).mono h₂.module)
            (ih (h₁.known hs) htypes
              (Nat.succ.inj hlength) heach)

/-- What is passed at one position. -/
theorem PassesAll.get {params : List ParamSig} {types : List TypeId} {values : List ValueId} {i : Nat}
    {p : ParamSig} (h : PassesAll m params types values) (hp : params[i]? = some p)
    (hty : types[i]? = some ty) (hv : values[i]? = some v) : p.Passes m ty v := by
  induction h generalizing i with
  | nil => cases hp
  | cons first _ ih =>
      cases i with
      | zero =>
          cases hp
          cases hty
          cases hv
          exact first
      | succ i => exact ih hp hty hv

/-- There is one value and one type for each parameter. -/
theorem PassesAll.length_eq {params : List ParamSig} {types : List TypeId} {values : List ValueId}
    (h : PassesAll m params types values) :
    values.length = params.length ∧ types.length = params.length := by
  induction h with
  | nil => exact ⟨rfl, rfl⟩
  | cons _ _ ih => exact ⟨congrArg (· + 1) ih.1, congrArg (· + 1) ih.2⟩

/-- The type in the module of a parameter. -/
theorem declares_of_paramType {p : ParamSig} {id : TypeId} (h : paramType p m = .ok (id, m')) :
    p.Declares m'.types id := by
  unfold paramType at h
  unfold ParamSig.Declares
  split at h
  · rename_i hreference
    rw [if_pos hreference]
    cases h
    exact Module.get_intern _ _
  · rename_i hvalue
    rw [if_neg hvalue]
    cases h
    rfl

/-- The types in the module of parameters. -/
theorem declares_of_paramTypes {params : List ParamSig} {declared : List TypeId}
    (h : paramTypes params m = .ok (declared, m')) :
    List.Forall₂ (fun p id => p.Declares m'.types id) params declared := by
  induction params generalizing m declared with
  | nil =>
      cases h
      exact .nil
  | cons first params ih =>
      obtain ⟨ty, m₁, hty, hrest⟩ := bind_eq_ok_iff.1 h
      obtain ⟨tys, m₂, htys, hend⟩ := bind_eq_ok_iff.1 hrest
      cases hend
      exact .cons ((declares_of_paramType hty).mono (Build.evolves htys).types) (ih htys)

/-- The type in the module of one of some parameters. -/
theorem declares_at {t : TypeTable} {params : List ParamSig} {declared : List TypeId} {i : Nat}
    {p : ParamSig} {id : TypeId} (h : List.Forall₂ (fun p id => p.Declares t id) params declared)
    (hp : params[i]? = some p) (hid : declared[i]? = some id) : p.Declares t id := by
  obtain ⟨hi, rfl⟩ := List.getElem?_eq_some_iff.1 hp
  obtain ⟨hi', rfl⟩ := List.getElem?_eq_some_iff.1 hid
  exact (List.forall₂_iff_get.1 h).2 i hi hi'

/-- The function type that is asked for a callable. The address of the object comes first, if the
callable has one, and then its parameters. -/
theorem get_of_callableType {thisTy : Option TypeId} {sig : CallableSig} {fnTy : TypeId}
    (h : callableType thisTy sig m = .ok (fnTy, m')) :
    ∃ first declared ret, m'.types.get fnTy = .ok (.function (first ++ declared) ret false) ∧
      List.Forall₂ (fun object id => m'.types.get id = .ok (.pointer object)) thisTy.toList first ∧
      List.Forall₂ (fun p id => p.Declares m'.types id) sig.params declared := by
  have hsig {first : List TypeId} {m₁ : Module} (hrun : (do
        let params ← paramTypes sig.params
        let ret ← paramType ⟨sig.ret, sig.retRef⟩
        Build.functionType (first ++ params) ret false) m₁ = .ok (fnTy, m')) :
      m₁.types.Develops m'.types ∧ ∃ declared ret,
        m'.types.get fnTy = .ok (.function (first ++ declared) ret false) ∧
        List.Forall₂ (fun p id => p.Declares m'.types id) sig.params declared := by
    obtain ⟨declared, m₂, hdeclared, hrest⟩ := bind_eq_ok_iff.1 hrun
    obtain ⟨ret, m₃, hret, hend⟩ := bind_eq_ok_iff.1 hrest
    have hlater : m₂.types.Develops m'.types :=
      ((Build.evolves hret).trans (Build.evolves hend)).types
    refine ⟨(Build.evolves hdeclared).types.trans hlater, declared, ret, ?_,
      (declares_of_paramTypes hdeclared).imp fun _ _ hid => hid.mono hlater⟩
    cases hend
    exact Module.get_intern _ _
  unfold callableType at h
  cases thisTy with
  | none =>
      obtain ⟨-, declared, ret, hget, hdeclared⟩ := hsig h
      exact ⟨[], declared, ret, hget, .nil, hdeclared⟩
  | some object =>
      obtain ⟨ptr, m₁, hptr, hrun⟩ := bind_eq_ok_iff.1 h
      obtain ⟨hlater, declared, ret, hget, hdeclared⟩ := hsig hrun
      cases hptr
      exact ⟨_, declared, ret, hget,
        .cons (hlater.get_of_isOpaque_eq_false (Module.get_intern _ _) rfl) .nil, hdeclared⟩

/-- What is passed has the types of a function type: the address of the object, and then the values
for the arguments, except where an argument misses its parameter. -/
def Takes (m : Module) (fnTy : TypeId) (receiver values : List ValueId) (params : List ParamSig)
    (types : List TypeId) : Prop :=
  ∃ first declared ret, m.types.get fnTy = .ok (.function (first ++ declared) ret false) ∧
    List.Forall₂ (fun this id => m.typeOf this = .ok id) receiver first ∧
    declared.length = params.length ∧
    ∀ {i : Nat} {p ty v id}, params[i]? = some p → types[i]? = some ty → values[i]? = some v →
      declared[i]? = some id → (m.typeOf v = .ok id ↔ ¬ p.Misses m.types ty)

/-- What is passed has the types of any function type that is asked for with these parameters, when
what comes first is the address of the object. -/
theorem PassesAll.takes {thisTy : Option TypeId} {sig : CallableSig} {fnTy : TypeId}
    {receiver values : List ValueId} {types : List TypeId} {m₁ : Module}
    (h : PassesAll m₁ sig.params types values)
    (hreceiver : List.Forall₂ (fun this object => m₁.valueType this = .ok (.pointer object))
      receiver thisTy.toList)
    (hfnTy : callableType thisTy sig m = .ok (fnTy, m')) (hm : m'.Evolves m₁) :
    Takes m₁ fnTy receiver values sig.params types := by
  obtain ⟨first, declared, ret, hget, hfirst, hdeclared⟩ := get_of_callableType hfnTy
  refine ⟨first, declared, ret, hm.types.get_of_isOpaque_eq_false hget rfl, ?_,
    hdeclared.length_eq.symm, fun {i p ty v id} hp hty hv hid => ?_⟩
  · cases thisTy with
    | none =>
        cases hfirst
        cases hreceiver
        exact .nil
    | some object =>
        obtain ⟨this, _, hthis, hnone, rfl⟩ := List.forall₂_cons_right_iff.1 hreceiver
        obtain ⟨ptr, _, hptr, hnone', rfl⟩ := List.forall₂_cons_left_iff.1 hfirst
        cases hnone
        cases hnone'
        exact .cons (Module.typeOf_of_valueType hthis
          (hm.types.get_of_isOpaque_eq_false hptr rfl) rfl) .nil
  · exact (h.get hp hty hv).typeOf_iff ((declares_at hdeclared hp hid).mono hm.types)

/-- Between two states a function is called with a value for each argument. A value has exactly
the type that the parameter has in the module, unless it is a reference that the argument misses.
With the address of the object in front, where there is one, the values are what a function takes
that is declared with these parameters. -/
def CallsWithArguments (s s' : Lowering) (f : FunctionId) (receiver : List ValueId)
    (params : List ParamSig) (types : List TypeId) : Prop :=
  ∃ values s₁ s₂ answer, s.Evolves s₁ ∧ s₂.Evolves s' ∧
    emitCall f (receiver ++ values) s₁ = .ok (answer, s₂) ∧
    values.length = params.length ∧ types.length = params.length ∧
    (∀ {m m' : Module} {declared : List TypeId}, paramTypes params m = .ok (declared, m') →
      m'.Evolves s₁.module → ∀ {i : Nat} {p ty v id}, params[i]? = some p →
        types[i]? = some ty → values[i]? = some v → declared[i]? = some id →
          (s₁.module.typeOf v = .ok id ↔ ¬ p.Misses s₁.module.types ty)) ∧
    ∀ {m m' : Module} {thisTy : Option TypeId} {sig : CallableSig} {fnTy : TypeId},
      sig.params = params →
      List.Forall₂ (fun this object => s.module.valueType this = .ok (.pointer object)) receiver
        thisTy.toList →
      callableType thisTy sig m = .ok (fnTy, m') → m'.Evolves s₁.module →
        Takes s₁.module fnTy receiver values params types

/-- The arguments are adapted for a call. -/
theorem callsWithArguments_of_adaptArgs {args : List Operand} {params : List ParamSig}
    {types : List TypeId} {values : List ValueId} {span : Span} {f : FunctionId}
    {receiver : List ValueId} {answer : Option ValueId} {s₁ s₂ : Lowering}
    (hs : s.Known)
    (hargs : List.Forall₂ (Operand.StandsFor s.module) args types)
    (hadapt : adaptArgs args params span s = .ok (some values, s₁))
    (hcall : emitCall f (receiver ++ values) s₁ = .ok (answer, s₂)) (hend : s₂.Evolves s') :
    CallsWithArguments s s' f receiver params types := by
  have h₁ := Stepwise.later (x := (adaptArgs args params span).run) hs hadapt
  unfold adaptArgs at hadapt
  split at hadapt
  · rename_i hlength
    have hpasses := passesAll_adaptEach hs hargs hlength hadapt
    refine ⟨values, s₁, s₂, answer, h₁, hend, hcall, hpasses.length_eq.1, hpasses.length_eq.2,
      ?_, ?_⟩
    · intro m m' declared hdeclared hlater i p ty v id hp hty hv hid
      exact (hpasses.get hp hty hv).typeOf_iff
        ((declares_at (declares_of_paramTypes hdeclared) hp hid).mono hlater.types)
    · rintro m m' thisTy sig fnTy rfl hreceiver hfnTy hlater
      have hlaterReceiver := hreceiver.imp fun _ _ hthis => h₁.module.valueType_pointer hthis
      exact hpasses.takes hlaterReceiver hfnTy hlater
  · cases hadapt

/-! ### Objects -/

/-- An object is at its address, or where what points to it points to. -/
theorem valueType_of_objectAddress {op : Operand} (hs : s.Known) (hop : op.StandsFor s.module ty)
    (h : objectAddress op span s = .ok (some (this, object), s')) :
    s'.module.valueType this = .ok (.pointer object) := by
  unfold objectAddress at h
  obtain ⟨ty', m₁, hask, h₁⟩ := Attempt.bind_build h
  cases hop.ty_eq.symm.trans hask
  obtain ⟨kind, m₂, hkind, h₂⟩ := Attempt.bind_build h₁
  obtain ⟨hget, rfl⟩ := Build.ask_eq_ok_iff.1 hkind
  split at h₂
  · obtain ⟨address, s₁, haddress, hend⟩ := Attempt.bind_lift h₂
    cases hend
    exact hop.valueType_address hs haddress
  · dsimp only at h₂
    cases hpointee : kind.pointee? with
    | some pointee =>
      rw [hpointee] at h₂
      obtain ⟨inner, m₃, hinner, h₃⟩ := Attempt.bind_build h₂
      obtain ⟨-, rfl⟩ := Build.ask_eq_ok_iff.1 hinner
      split at h₃
      · obtain ⟨address, s₁, hload, hend⟩ := Attempt.bind_lift h₃
        cases hend
        have hlater := Stepwise.later hs hload
        have hpointer : s.module.types.pointee? ty = some object := by
          rw [TypeTable.pointee?, hget]
          exact hpointee
        exact Module.valueType_of_typeOf (hop.typeOf_load hload)
          (hlater.module.types.get_of_isOpaque_eq_false (get_of_pointee? hpointer) rfl)
      · obtain ⟨_, _, -, hreject⟩ := Attempt.bind_lift h₃
        exact (Attempt.reject_ne_some hreject).elim
    | none =>
      rw [hpointee] at h₂
      obtain ⟨_, _, -, hreject⟩ := Attempt.bind_lift h₂
      exact (Attempt.reject_ne_some hreject).elim

/-- Fresh room on the stack is the address of a value. -/
theorem valueType_of_stackAlloc (hs : s.Known) (h : stackAlloc object s = .ok (this, s')) :
    s'.module.valueType this = .ok (.pointer object) := by
  obtain ⟨slot, s₁, hslot, hrest⟩ := bind_eq_ok_iff.1 h
  obtain ⟨zero, s₂, hzero, hstored⟩ := bind_eq_ok_iff.1 hrest
  obtain ⟨_, s₃, hstore, hend⟩ := bind_eq_ok_iff.1 hstored
  cases hend
  have h₁ := Stepwise.later hs hslot
  have h₂ := Stepwise.later (h₁.known hs) hzero
  have h₃ := Stepwise.later ((h₁.trans h₂).known hs) hstore
  exact (h₂.trans h₃).module.valueType_pointer (valueType_entryAlloca hs hslot)

/-- Fresh memory on the heap is the address of a value. -/
theorem valueType_of_heapAlloc (h : heapAlloc object s = .ok (this, s')) :
    s'.module.valueType this = .ok (.pointer object) := by
  obtain ⟨calloc, s₁, -, h₁⟩ := bind_eq_ok_iff.1 h
  obtain ⟨count, s₂, -, h₂⟩ := bind_eq_ok_iff.1 h₁
  obtain ⟨bytes, s₃, -, h₃⟩ := bind_eq_ok_iff.1 h₂
  obtain ⟨size, s₄, -, h₄⟩ := bind_eq_ok_iff.1 h₃
  obtain ⟨raw, s₅, -, h₅⟩ := bind_eq_ok_iff.1 h₄
  obtain ⟨ptrTy, s₆, hptr, h₆⟩ := bind_eq_ok_iff.1 h₅
  obtain ⟨m₆, hptr', rfl⟩ := build_eq_ok_iff.1 hptr
  cases raw with
  | some raw =>
      obtain ⟨m₇, hcast, rfl⟩ := build_eq_ok_iff.1 h₆
      exact (Build.makesA_of_internType (t := .pointer object) rfl fun ptrTy =>
        Build.makes_cast .bitcast raw ptrTy).run (bind_eq_ok_iff.2 ⟨_, _, hptr', hcast⟩)
  | none => 
      obtain ⟨m₇, hnull, rfl⟩ := build_eq_ok_iff.1 h₆
      exact (Build.makesA_of_internType (t := .pointer object) rfl fun ptrTy =>
        Build.makes_pushValue ptrTy (.const .null)).run (bind_eq_ok_iff.2 ⟨_, _, hptr', hnull⟩)

/-- The object of a method is at the address that comes in. -/
theorem valueType_of_thisPointer {binding : VarBinding} {ptr : TypeId}
    (hbinding : s.context.symbols.binding? s.pass.thisName = some binding)
    (hstorage : s.module.valueType binding.storage = .ok (.pointer ptr))
    (hptr : s.module.types.get ptr = .ok (.pointer object))
    (h : thisPointer s = .ok (some this, s')) : s'.module.valueType this = .ok (.pointer object) := by
  obtain ⟨table, s₁, htable, h₁⟩ := bind_eq_ok_iff.1 h
  cases htable
  obtain ⟨now, s₂, hnow, h₂⟩ := bind_eq_ok_iff.1 h₁
  cases hnow
  rw [hbinding] at h₂
  obtain ⟨value, s₃, hload, hend⟩ := bind_eq_ok_iff.1 h₂
  cases hend
  obtain ⟨m₃, hrun, rfl⟩ := build_eq_ok_iff.1 hload
  have hlater : s.module.Evolves m₃ := Build.evolves hrun
  exact Module.valueType_of_typeOf (Build.typeOf_of_load hstorage hrun)
    (hlater.types.get_of_isOpaque_eq_false hptr rfl)

/-! ### Deletion -/

/-- An operator that is found is one that admits the key. Nothing has changed then. -/
theorem exists_of_findOperator {key : OperatorKey} {index : Nat} (hs : s.Known)
    (h : findOperator key span s = .ok (some (some index), s')) :
    s' = s ∧ ∃ op, s.context.operators.entries[index]? = some op ∧
      key.Admits s.module.types.pointee? op.1 := by
  unfold findOperator at h
  obtain ⟨now, s₁, hnow, h₁⟩ := Attempt.bind_lift (x := get) h
  cases hnow
  dsimp only at h₁
  split at h₁
  · cases h₁
  · obtain ⟨pointee, s₂, hpointee, h₂⟩ := Attempt.bind_lift h₁
    cases hpointee
    cases hfound : s.context.operators.lookup s.module.types.pointee? key with
    | found i =>
        rw [hfound] at h₂
        cases h₂
        exact ⟨rfl, hs.keys.admits_of_lookup hfound⟩
    | notFound =>
        rw [hfound] at h₂
        cases h₂
    | ambiguous count =>
        rw [hfound] at h₂
        obtain ⟨_, _, -, hreject⟩ := Attempt.bind_lift h₂
        exact (Attempt.reject_ne_some hreject).elim

/-- An operator for the deletion of objects has one parameter, which takes the object or its
address. -/
theorem exists_param_of_deletes {op : OperatorKey × OperatorEntry} {pointee : TypeRelation}
    (hop : op.2.Known m op.1) (hadmits : (OperatorKey.behind ty .delete).Admits pointee op.1) :
    ∃ p, op.2.params = [p] ∧ (ty = p.ty ∨ pointee ty = some p.ty ∨ pointee p.ty = some ty) := by
  obtain ⟨⟨lhs, rhs, hparams, hkey⟩, -⟩ := hop
  obtain ⟨⟨left, symbol, right⟩, entry⟩ := op
  obtain ⟨rfl, hleft, hright⟩ := hadmits
  cases lhs with
  | none => cases rhs <;> cases hkey
  | some p =>
      cases rhs with
      | some q => cases hkey
      | none =>
          cases hkey
          exact ⟨p, hparams, hleft⟩

/-- Where a thrown object is disposed of, its operator is called with the object or with its address,
as the parameter takes it. Only for a reference to a pointer the address is no address of a
pointer. -/
theorem passes_of_destructorBody {thunk : FunctionId} {entry : OperatorEntry} {p : ParamSig}
    (hparams : entry.params = [p]) (hp : ty = p.ty ∨ m.types.pointee? p.ty = some ty)
    (hplain : m.types.pointee? ty = none) (hhas : m.types.Has ty)
    (h : destructorBody thunk ty entry m = .ok ((), m')) :
    ∃ v m₁ m₂ answer, m.Evolves m₁ ∧ Build.call entry.function [v] m₁ = .ok (answer, m₂) ∧
      m₂.Evolves m' ∧ p.Passes m₁ ty v := by
  unfold destructorBody at h
  rw [hparams] at h
  obtain ⟨target, m₁, htarget, h₁⟩ := bind_eq_ok_iff.1 h
  obtain ⟨rfl, rfl, hhas'⟩ := pointee?_eq_ok htarget
  obtain ⟨byAddress, _, hby, h₁⟩ := bind_eq_ok_iff.1 h₁
  cases hby
  obtain ⟨block, m₂, hblock, h₂⟩ := bind_eq_ok_iff.1 h₁
  obtain ⟨⟨⟩, m₃, hposition, h₃⟩ := bind_eq_ok_iff.1 h₂
  obtain ⟨raw, m₄, hraw, h₄⟩ := bind_eq_ok_iff.1 h₃
  obtain ⟨ptr, m₅, hptr, h₅⟩ := bind_eq_ok_iff.1 h₄
  obtain ⟨typed, m₆, htyped, h₆⟩ := bind_eq_ok_iff.1 h₅
  have hbefore : m₁.Evolves m₆ :=
    (Build.evolves hblock).trans ((Build.evolves hposition).trans ((Build.evolves hraw).trans
      ((Build.evolves hptr).trans (Build.evolves htyped))))
  have haddress : m₆.valueType typed = .ok (.pointer ty) :=
    (Build.makesA_of_internType (t := .pointer ty) rfl fun ptr =>
      Build.makes_cast .bitcast raw ptr).run (bind_eq_ok_iff.2 ⟨ptr, m₅, hptr, htyped⟩)
  have hlast {v : ValueId} {m₇ : Module} (hm : m₁.Evolves m₇) (hpasses : p.Passes m₇ ty v)
      (hrun : (do
        let _ ← Build.call entry.function [v]
        Build.ret none : Build Unit) m₇ = .ok ((), m')) :
      ∃ v m₁' m₂' answer, m₁.Evolves m₁' ∧ Build.call entry.function [v] m₁' = .ok (answer, m₂') ∧
        m₂'.Evolves m' ∧ p.Passes m₁' ty v := by
    obtain ⟨answer, m₈, hcall, hret⟩ := bind_eq_ok_iff.1 hrun
    exact ⟨v, m₇, m₈, answer, hm, hcall, Build.evolves hret, hpasses⟩
  have hsame : m₆.types.pointee? p.ty = m₁.types.pointee? p.ty := hbefore.types.pointee?_eq hhas'
  have hmisses : p.Misses m₆.types ty ↔ p.isReference = true ∧ ty ≠ p.ty := by
    rw [ParamSig.Misses, hbefore.types.pointee?_eq hhas, hplain]
    simp
  split at h₆
  · rename_i hby
    refine hlast hbefore ⟨hbefore.types.has hhas, fun hfits => ?_, fun _ => haddress⟩ h₆
    rw [hmisses] at hfits
    unfold ParamSig.Receives
    split
    · rename_i hreference
      rw [not_and_not_right] at hfits
      exact hfits hreference ▸ haddress
    · rename_i hvalue
      rw [Bool.or_eq_true, beq_iff_eq] at hby
      have hpointer := get_of_pointee? (hby.resolve_left hvalue)
      exact Module.typeOf_of_valueType haddress
        (hbefore.types.get_of_isOpaque_eq_false hpointer rfl) rfl
  · rename_i hby
    obtain ⟨v, m₇, hload, h₇⟩ := bind_eq_ok_iff.1 h₆
    have hloaded : m₆.Evolves m₇ := Build.evolves hload
    rw [Bool.or_eq_true, beq_iff_eq, not_or] at hby
    refine hlast (hbefore.trans hloaded) ⟨(hbefore.trans hloaded).types.has hhas, fun _ => ?_,
      fun hmissed => absurd hmissed.1 hby.1⟩ h₇
    unfold ParamSig.Receives
    rw [if_neg hby.1, ← hp.resolve_right hby.2]
    exact Build.typeOf_of_load haddress hload

/-- A description changes nothing. -/
theorem eq_of_describe {text : String} (h : describe ty s = .ok (text, s')) : s' = s := by
  rw [describe, bind_of_ok (get_apply s)] at h
  cases htext : s.module.types.describe ty with
  | error c =>
      rw [htext] at h
      cases h
  | ok text' =>
      rw [htext] at h
      cases h
      rfl

/-- Between two states the operator that deletes objects of a type is called with an object, in the
function that disposes of one that was thrown. -/
def CallsDestructor (s s' : Lowering) (ty : TypeId) : Prop :=
  ∃ index entry p v m₁ m₂ answer, s.context.operators.get? index = some entry ∧
    entry.params = [p] ∧ s.module.Evolves m₁ ∧ m₂.Evolves s'.module ∧
    Build.call entry.function [v] m₁ = .ok (answer, m₂) ∧
    ∀ {m m' : Module} {sig : CallableSig} {fnTy : TypeId}, sig.params = [p] →
      callableType none sig m = .ok (fnTy, m') → m'.Evolves m₁ → Takes m₁ fnTy [] [v] [p] [ty]

/-- An object that is thrown is disposed of by its operator. -/
theorem callsDestructor_of_destructorThunk {t : IrType} {f : FunctionId} (hs : s.Known)
    (hty : s.module.types.get ty = .ok t) (hstruct : t.isStruct = true)
    (h : destructorThunk ty span s = .ok (some f, s')) : CallsDestructor s s' ty := by
  unfold destructorThunk at h
  obtain ⟨found, s₁, hfound, h₁⟩ := Attempt.bind_eq_some h
  cases found with
  | none =>
      obtain ⟨_, _, -, hreject⟩ := Attempt.bind_lift h₁
      exact (Attempt.reject_ne_some hreject).elim
  | some index =>
      obtain ⟨rfl, op, hop, hadmits⟩ := exists_of_findOperator hs hfound
      obtain ⟨label, s₂, hlabel, h₂⟩ := Attempt.bind_lift h₁
      obtain rfl : s₂ = s₁ := eq_of_describe hlabel
      obtain ⟨now, s₃, hnow, h₃⟩ := Attempt.bind_lift (x := get) h₂
      cases hnow
      have hentry : s₂.context.operators.get? index = some op.2 := by
        rw [OperatorTable.get?, hop]
        rfl
      rw [hentry] at h₃
      obtain ⟨bytes, m₁, hbytes, h₄⟩ := Attempt.bind_build h₃
      obtain ⟨void, m₂, hvoid, h₅⟩ := Attempt.bind_build h₄
      obtain ⟨fnTy, m₃, hfnTy, h₆⟩ := Attempt.bind_build h₅
      obtain ⟨thunk, m₄, hthunk, h₇⟩ := Attempt.bind_build h₆
      obtain ⟨now, s₄, hnow, h₈⟩ := Attempt.bind_lift (x := get) h₇
      cases hnow
      obtain ⟨⟨⟩, m₅, hbody, h₉⟩ := Attempt.bind_build h₈
      obtain ⟨⟨⟩, m₆, hrestore, hend⟩ := Attempt.bind_build h₉
      cases hend
      have hbefore : s₂.module.Evolves m₄ :=
        (Build.evolves hbytes).trans ((Build.evolves hvoid).trans ((Build.evolves hfnTy).trans
          (Build.evolves hthunk)))
      obtain ⟨p, hparams, hp⟩ := exists_param_of_deletes
        (hs.operators _ (List.mem_of_getElem? hop)) hadmits
      have hplain : s₂.module.types.pointee? ty = none := by
        rw [TypeTable.pointee?, hty]
        cases t <;> first | rfl | cases hstruct
      have hp' : ty = p.ty ∨ s₂.module.types.pointee? p.ty = some ty := by
        rw [hplain] at hp
        exact hp.imp_right fun h => h.resolve_left (by simp)
      have hhas : s₂.module.types.Has ty := ⟨t, hty⟩
      obtain ⟨v, m₇, m₈, answer, h₁₀, hcall, h₁₁, hpasses⟩ := passes_of_destructorBody hparams
        (hp'.imp_right fun hpointer => (hbefore.types.pointee?_eq
          ⟨_, get_of_pointee? hpointer⟩).trans hpointer) (hbefore.types.pointee?_eq hhas ▸ hplain) (hbefore.types.has hhas) hbody
      refine ⟨index, op.2, p, v, m₇, m₈, answer, hentry, hparams, hbefore.trans h₁₀,
        h₁₁.trans (Build.evolves hrestore), hcall, ?_⟩
      rintro m m' sig fnTy hsig hsigTy hlater
      rw [← hsig]
      exact PassesAll.takes (hsig ▸ .cons hpasses .nil) .nil hsigTy hlater

/-! ### Declarations -/

/-- The function with a name has the type that was asked for a callable. -/
def HasType (s s' : Lowering) (symbol : String) (thisTy : Option TypeId) (sig : CallableSig) : Prop :=
  ∃ f d m, s'.module.functionByName? symbol = some f ∧ s'.module.function f = .ok d ∧
    callableType thisTy sig s.module = .ok (d.ty, m) ∧ m.Evolves s'.module

/-- The function of a callable that is new to the module has the type that is asked for. -/
theorem hasType_of_declareCallee {node : Nat} {callee : Callee} {symbol : String}
    {sig : CallableSig} {thisTy : Option TypeId} {body : Option Node}
    (hnew : s.module.functionByName? symbol = none)
    (h : declareCallee node callee symbol sig thisTy body span s = .ok ((), s')) :
    HasType s s' symbol thisTy sig := by
  obtain ⟨fnTy, s₁, hfnTy, h₁⟩ := bind_eq_ok_iff.1 h
  obtain ⟨m₁, hask, rfl⟩ := build_eq_ok_iff.1 hfnTy
  obtain ⟨f, s₂, hf, h₂⟩ := bind_eq_ok_iff.1 h₁
  obtain ⟨m₂, hdeclare, rfl⟩ := build_eq_ok_iff.1 hf
  obtain ⟨table, s₃, htable, h₃⟩ := bind_eq_ok_iff.1 h₂
  cases htable
  dsimp only at h₃
  obtain ⟨⟨⟩, s₄, hmodify, h₄⟩ := bind_eq_ok_iff.1 h₃
  cases hmodify
  have hsame : s'.module = m₂ := by
    generalize (callee.declare s.context.symbols
      ⟨symbol, sig.params, sig.ret, sig.retRef, f, []⟩).1 = entered at h₄
    rcases entered with _ | (_ | _)
    · cases thisTy with
      | none =>
          cases h₄
          rfl
      | some object =>
          obtain ⟨text, s₅, htext, habandon⟩ := bind_eq_ok_iff.1 h₄
          cases eq_of_describe htext
          cases habandon
          rfl
    · cases h₄
      rfl
    · cases h₄
      rfl
  have hindex : m₁.functionIndex = s.module.functionIndex := Build.Preserves.same hask
  have hnew₁ : m₁.functionByName? symbol = none := by
    rw [Module.functionByName?, hindex]
    exact hnew
  obtain ⟨params, hfunction⟩ := Build.function_of_declareFunction hnew₁ hdeclare
  rw [HasType, hsame]
  exact ⟨f, _, m₁, Build.functionByName?_of_declareFunction hdeclare, hfunction, hask,
    Build.evolves hdeclare⟩

/-! ### Calls -/

/-- Every argument of a call has exactly the type of its parameter, however it was matched, unless
the parameter is a reference that the argument misses. This holds of the callables with a name, of
methods and constructors, where the object comes first, of operators, and of the deletion of what
was thrown. What stands for the object is always its address, and the function of a callable that is
declared has the parameters of the callable, unless a function had its name before. Support
functions always get what their signatures ask for. -/
theorem arguments_have_types_of_parameters {args : List Operand} {types : List TypeId} {span : Span}
    (hs : s.Known)
    (hargs : List.Forall₂ (Operand.StandsFor s.module) args types) :
    (∀ callee receiver result s', invokeResolved callee receiver args span s = .ok (some result, s') →
      ∃ overload s₁, resolve callee args span s = .ok (some overload, s₁) ∧
        CallsWithArguments s₁ s' overload.function receiver overload.params types) ∧
    (∀ index result s' entry, callOperator index args span s = .ok (result, s') →
      s.context.operators.get? index = some entry →
        adaptArgs args entry.params span s = .ok (none, s') ∨
          CallsWithArguments s s' entry.function [] entry.params types) ∧
    (∀ op ty this object s', op.StandsFor s.module ty →
      objectAddress op span s = .ok (some (this, object), s') →
        s'.module.valueType this = .ok (.pointer object)) ∧
    (∀ this object s', stackAlloc object s = .ok (this, s') ∨ heapAlloc object s = .ok (this, s') →
      s'.module.valueType this = .ok (.pointer object)) ∧
    (∀ binding ptr this object s', s.context.symbols.binding? s.pass.thisName = some binding →
      s.module.valueType binding.storage = .ok (.pointer ptr) →
      s.module.types.get ptr = .ok (.pointer object) → thisPointer s = .ok (some this, s') →
        s'.module.valueType this = .ok (.pointer object)) ∧
    (∀ ty t f s', s.module.types.get ty = .ok t → t.isStruct = true →
      destructorThunk ty span s = .ok (some f, s') → CallsDestructor s s' ty) ∧
    (∀ node callee symbol sig thisTy body s', s.module.functionByName? symbol = none →
      declareCallee node callee symbol sig thisTy body span s = .ok ((), s') →
        HasType s s' symbol thisTy sig) ∧
    SuitsSupport s := by
  refine ⟨fun callee receiver result s' h => ?_, fun index result s' entry h hentry => ?_,
    fun op ty this object s' hop h => valueType_of_objectAddress hs hop h,
    fun this object s' h => h.elim (valueType_of_stackAlloc hs) valueType_of_heapAlloc,
    fun binding ptr this object s' hbinding hstorage hptr h =>
      valueType_of_thisPointer hbinding hstorage hptr h,
    fun ty t f s' hty hstruct h => callsDestructor_of_destructorThunk hs hty hstruct h,
    fun node callee symbol sig thisTy body s' hnew h => hasType_of_declareCallee hnew h,
    suitsSupport hs⟩
  · obtain ⟨overload, s₁, hresolve, hrest⟩ := Attempt.bind_eq_some h
    have h₁ := Stepwise.later (x := (resolve callee args span).run) hs hresolve
    have hs₁ := h₁.known hs
    obtain ⟨values, s₂, hadapt, hcalled⟩ := Attempt.bind_eq_some hrest
    have h₂ := Stepwise.later (x := (adaptArgs args overload.params span).run) hs₁ hadapt
    have hs₂ := h₂.known hs₁
    obtain ⟨answer, s₃, hcall, hnoted⟩ :=
      Attempt.bind_lift (x := emitCall overload.function (receiver ++ values)) hcalled
    have h₃ := Stepwise.later hs₂ hcall
    obtain ⟨_, s₄, hnote, hend⟩ := Attempt.bind_lift hnoted
    cases hend
    have h₄ := Stepwise.later (h₃.known hs₂) hnote
    exact ⟨overload, s₁, hresolve, callsWithArguments_of_adaptArgs hs₁
      (hargs.imp fun _ _ hstands => hstands.mono h₁.module) hadapt hcall h₄⟩
  · obtain ⟨now, s₁, hnow, hrest⟩ := Attempt.bind_lift (x := get) h
    cases hnow
    rw [hentry] at hrest
    rcases Attempt.bind_cases hrest with ⟨values, s₂, hadapt, hcalled⟩ | ⟨hfailed, -⟩
    · refine .inr ?_
      have h₂ := Stepwise.later (x := (adaptArgs args entry.params span).run) hs hadapt
      obtain ⟨answer, s₃, hcall, hnoted⟩ :=
        Attempt.bind_lift (x := emitCall entry.function values) hcalled
      have h₃ := Stepwise.later (h₂.known hs) hcall
      have hrest : Stepwise (do
          noteThrows entry.throws
          Attempt.ofOption (callResult answer entry.retRef) : Attempt Operand).run := inferInstance
      have h₄ := hrest.later (h₃.known (h₂.known hs)) hnoted
      exact callsWithArguments_of_adaptArgs hs hargs hadapt hcall h₄
    · exact .inl hfailed

end Lower

namespace Compilation

/-- A function with a reference to a pointer, and a call with a variable that is no pointer. -/
def pointerProgram : Node :=
  let node (id : Nat) (kind : NodeKind Node) : Node := ⟨id, .unknown, kind⟩
  let reference : TypeExpr := .reference (.pointer (.prim .int))
  let callee := node 1 (.function ⟨⟨3⟩, [⟨⟨4⟩, reference⟩], .prim .void, node 0 (.block [])⟩)
  let var := node 2 (.varDecl (.prim .int) [⟨⟨6⟩, none⟩])
  let call := node 4 (.call ⟨3⟩ [node 3 (.ident ⟨6⟩)])
  let body := node 5 (.block [var, call])
  node 7 (.module [callee, node 6 (.function ⟨⟨5⟩, [], .prim .int, body⟩)])

/-- The compilation in which the program has been read. -/
def pointerCompilation : Compilation := reading "pointer" #["f", "p", "main", "x"]

/-- Nothing is reported, but the function takes the address of an address and gets an address. -/
theorem call_of_lower_pointerProgram : ∃ outcome c',
    pointerCompilation.lower (some pointerProgram) = .ok (.ok outcome, c') ∧
      outcome.errorCount = 0 ∧
      (c'.module.value ⟨4⟩).map (·.origin) = .ok (.instr (.call ⟨0⟩ [⟨1⟩])) ∧
      (c'.module.function ⟨0⟩).map (·.ty) = .ok ⟨4⟩ ∧
      c'.module.types.get ⟨4⟩ = .ok (.function [⟨3⟩] ⟨2⟩ false) ∧
      c'.module.typeOf ⟨1⟩ = .ok ⟨1⟩ :=
  exists_of_leaves (by decide +kernel)

/-- When the argument is a pointer, the call is right. -/
theorem arguments_have_types_of_parameters_pointer : ∃ s s₁ s' result overload,
    Lower.invokeResolved (.function ⟨3⟩) [] [⟨⟨0⟩, true⟩] .unknown s = .ok (some result, s') ∧
      Lower.resolve (.function ⟨3⟩) [⟨⟨0⟩, true⟩] .unknown s = .ok (some overload, s₁) ∧
      Lower.CallsWithArguments s₁ s' overload.function [] overload.params [⟨1⟩] := by
  have hrun : ∃ outcome c', pointerCompilation.lower (some pointerProgram) =
      .ok (.ok outcome, c') ∧ c'.module.valueType ⟨0⟩ = .ok (.pointer ⟨1⟩) ∧
      ((Lower.invokeResolved (.function ⟨3⟩) [] [⟨⟨0⟩, true⟩] .unknown
        ⟨c'.context, c'.names, c'.module, .new ⟨0⟩⟩).toOption.bind Prod.fst).isSome = true :=
    exists_of_leaves (by decide +kernel)
  obtain ⟨outcome, c', hlower, hty, hinvoke⟩ := hrun
  have hbuilt : c'.IsBuilt := .lower (isBuilt_reading "pointer" _) hlower
  have hknown : Lowering.Known ⟨c'.context, c'.names, c'.module, .new ⟨0⟩⟩ := hbuilt.progresses.2
  have hargs : List.Forall₂ (Operand.StandsFor c'.module) [⟨⟨0⟩, true⟩] [⟨1⟩] :=
    .cons (.place hty) .nil
  cases hanswer : Lower.invokeResolved (.function ⟨3⟩) [] [⟨⟨0⟩, true⟩] .unknown
      ⟨c'.context, c'.names, c'.module, .new ⟨0⟩⟩ with
  | error e =>
      rw [hanswer] at hinvoke
      cases hinvoke
  | ok answer =>
      rw [hanswer] at hinvoke
      obtain ⟨o, s'⟩ := answer
      obtain ⟨result, rfl⟩ := Option.isSome_iff_exists.1 hinvoke
      obtain ⟨overload, s₁, hresolve, hcalls⟩ := (Lower.arguments_have_types_of_parameters hknown
        hargs).1 _ _ _ _ hanswer
      exact ⟨_, s₁, s', result, overload, hanswer, hresolve, hcalls⟩

end Compilation

end SsaCompiler
