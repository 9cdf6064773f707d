/-
# Calls of support functions

Compiled code hands its support functions exactly what they are declared with: sizes and counts as
words of full width, and whatever they only pass on as addresses of bytes. What comes after the
format of a print is no parameter.

An exception that has been allocated is handed on as it comes, so it has the type of what the
function that allocates answers with, if that function is the one that support declares.
-/

import SsaCompiler.Proofs.Ir.Listing
import SsaCompiler.Proofs.Lower.Operand
import SsaCompiler.Proofs.Machine.Printing

namespace SsaCompiler

open Lower

variable {m m' : Module} {s s' : Lowering} {g : SupportFunction} {v : ValueId} {ty : TypeId}
  {values : List ValueId}

/-! ### Signatures -/

/-- What support functions take and answer with: addresses of bytes, numbers and nothing. -/
inductive SupportType where
  | bytes | int | long | double | void

namespace SupportType

variable {k : SupportType} {t t' : TypeTable} {id id' : TypeId}

/-- The type stands at a position of the table. -/
def IsAt (t : TypeTable) (id : TypeId) : SupportType → Prop
  | bytes => ∃ byte, t.get byte = .ok (.int 8) ∧ t.get id = .ok (.pointer byte)
  | int => t.get id = .ok (.int 32)
  | long => t.get id = .ok (.int 64)
  | double => t.get id = .ok (.float 64)
  | void => t.get id = .ok .void

theorem IsAt.mono (h : k.IsAt t id) (ht : t.Develops t') : k.IsAt t' id := by
  cases k with
  | bytes =>
      obtain ⟨byte, hbyte, hid⟩ := h
      exact ⟨byte, ht.get_of_isOpaque_eq_false hbyte rfl, ht.get_of_isOpaque_eq_false hid rfl⟩
  | int | long | double | void => exact ht.get_of_isOpaque_eq_false h rfl

/-- The type stands at one position only. -/
theorem IsAt.unique (h : k.IsAt t id) (h' : k.IsAt t id') (ht : t.IsUnique) : id = id' := by
  cases k with
  | bytes =>
      obtain ⟨byte, hbyte, hid⟩ := h
      obtain ⟨byte', hbyte', hid'⟩ := h'
      cases ht _ _ _ hbyte hbyte' rfl
      exact ht _ _ _ hid hid' rfl
  | int | long | double | void => exact ht _ _ _ h h' rfl

/-- A value has the type. -/
def IsTypeOf (k : SupportType) (m : Module) (v : ValueId) : Prop :=
  ∃ id, m.typeOf v = .ok id ∧ k.IsAt m.types id

theorem IsTypeOf.mono (h : k.IsTypeOf m v) (hm : m.Evolves m') : k.IsTypeOf m' v := by
  obtain ⟨id, hv, hid⟩ := h
  exact ⟨id, hm.typeOf hv, hid.mono hm.types⟩

/-- A value of the type has it wherever the type stands. -/
theorem IsTypeOf.typeOf (h : k.IsTypeOf m v) (hty : k.IsAt m.types ty) : m.typeOf v = .ok ty := by
  obtain ⟨id, hv, hid⟩ := h
  exact hid.unique hty m.isUnique ▸ hv

end SupportType

namespace SupportFunction

/-- What a support function takes. -/
def params : SupportFunction → List SupportType
  | calloc => [.long, .long]
  | free | printf | beginCatch => [.bytes]
  | pow => [.double, .double]
  | abort | endCatch | personality => []
  | allocateException => [.long]
  | throwException => [.bytes, .bytes, .bytes]

/-- What a support function answers with. -/
def result : SupportFunction → SupportType
  | calloc | allocateException | beginCatch => .bytes
  | free | abort | throwException | endCatch => .void
  | printf | personality => .int
  | pow => .double

/-- Whether a support function takes more than it declares. -/
def isVariadic : SupportFunction → Bool
  | printf | personality => true
  | _ => false

/-- The type of a support function stands at a position of the table. -/
def IsTypedAt (g : SupportFunction) (t : TypeTable) (id : TypeId) : Prop :=
  ∃ declared ret, t.get id = .ok (.function declared ret g.isVariadic) ∧
    List.Forall₂ (fun k ty => k.IsAt t ty) g.params declared ∧ g.result.IsAt t ret

theorem IsTypedAt.mono {t t' : TypeTable} {id : TypeId} (h : g.IsTypedAt t id)
    (ht : t.Develops t') : g.IsTypedAt t' id := by
  obtain ⟨declared, ret, hget, hdeclared, hret⟩ := h
  exact ⟨declared, ret, ht.get_of_isOpaque_eq_false hget rfl,
    hdeclared.imp fun _ _ hty => hty.mono ht, hret.mono ht⟩

/-- The signature is made of these types. -/
theorem isTypedAt_of_signature {id : TypeId} (h : g.signature m = .ok (id, m')) :
    g.IsTypedAt m'.types id := by
  obtain ⟨byte, m₁, hbyte, h⟩ := bind_eq_ok_iff.1 h
  obtain ⟨bytes, m₂, hbytes, h⟩ := bind_eq_ok_iff.1 h
  obtain ⟨int, m₃, hint, h⟩ := bind_eq_ok_iff.1 h
  obtain ⟨long, m₄, hlong, h⟩ := bind_eq_ok_iff.1 h
  obtain ⟨double, m₅, hdouble, h⟩ := bind_eq_ok_iff.1 h
  obtain ⟨void, m₆, hvoid, h⟩ := bind_eq_ok_iff.1 h
  have htype {t : IrType} {ht : t.description? = some t} {id : TypeId} {m m' : Module}
      (h : Build.internType t ht m = .ok (id, m')) : m'.types.get id = .ok t := by
    cases h
    exact Module.get_intern _ _
  have h₆ := (Build.evolves hvoid).types
  have h₅ := (Build.evolves hdouble).types.trans h₆
  have h₄ := (Build.evolves hlong).types.trans h₅
  have h₃ := (Build.evolves hint).types.trans h₄
  have h₂ := (Build.evolves hbytes).types.trans h₃
  have hbytesAt : SupportType.bytes.IsAt m₆.types bytes :=
    ⟨byte, h₂.get_of_isOpaque_eq_false (htype hbyte) rfl,
      h₃.get_of_isOpaque_eq_false (htype hbytes) rfl⟩
  have hintAt : SupportType.int.IsAt m₆.types int := h₄.get_of_isOpaque_eq_false (htype hint) rfl
  have hlongAt : SupportType.long.IsAt m₆.types long :=
    h₅.get_of_isOpaque_eq_false (htype hlong) rfl
  have hdoubleAt : SupportType.double.IsAt m₆.types double :=
    h₆.get_of_isOpaque_eq_false (htype hdouble) rfl
  have hvoidAt : SupportType.void.IsAt m₆.types void := htype hvoid
  have hends {declared : List TypeId} {ret : TypeId}
      (hdeclared : List.Forall₂ (fun k ty => k.IsAt m₆.types ty) g.params declared)
      (hret : g.result.IsAt m₆.types ret)
      (h : Build.functionType declared ret g.isVariadic m₆ = .ok (id, m')) :
      g.IsTypedAt m'.types id := by
    have hlater := (Build.evolves h).types
    exact ⟨declared, ret, htype h, hdeclared.imp fun _ _ hty => hty.mono hlater, hret.mono hlater⟩
  cases g with
  | calloc => exact hends (.cons hlongAt (.cons hlongAt .nil)) hbytesAt h
  | free => exact hends (.cons hbytesAt .nil) hvoidAt h
  | printf => exact hends (.cons hbytesAt .nil) hintAt h
  | pow => exact hends (.cons hdoubleAt (.cons hdoubleAt .nil)) hdoubleAt h
  | abort | endCatch => exact hends .nil hvoidAt h
  | allocateException => exact hends (.cons hlongAt .nil) hbytesAt h
  | throwException => exact hends (.cons hbytesAt (.cons hbytesAt (.cons hbytesAt .nil))) hvoidAt h
  | beginCatch => exact hends (.cons hbytesAt .nil) hbytesAt h
  | personality => exact hends .nil hintAt h

/-- Values are what a support function takes, and no more unless it takes more than it declares. -/
structure IsGiven (g : SupportFunction) (m : Module) (values : List ValueId) : Prop where
  params : List.Forall₂ (fun v k => k.IsTypeOf m v) (values.take g.params.length) g.params
  length : g.isVariadic = false → values.length = g.params.length

theorem IsGiven.mono (h : g.IsGiven m values) (hm : m.Evolves m') : g.IsGiven m' values :=
  ⟨h.params.imp fun _ _ hv => hv.mono hm, h.length⟩

/-- The function with the name of a support function has the type of its signature. -/
def IsDeclared (g : SupportFunction) (m : Module) : Prop :=
  ∃ f d, m.functionByName? g.symbol = some f ∧ m.function f = .ok d ∧ g.IsTypedAt m.types d.ty

theorem IsDeclared.mono (h : g.IsDeclared m) (hm : m.Evolves m') : g.IsDeclared m' := by
  obtain ⟨f, d, hname, hd, hty⟩ := h
  obtain ⟨d', hd', hgrows⟩ := hm.function hd
  exact ⟨f, d', hm.functionByName? hname, hd', hgrows.ty ▸ hty.mono hm.types⟩

end SupportFunction

/-- Values have exactly the types of the parameters that a function type declares, and there are no
more of them unless the function takes more. -/
def Module.Suits (m : Module) (fnTy : TypeId) (values : List ValueId) : Prop :=
  ∃ declared ret variadic, m.types.get fnTy = .ok (.function declared ret variadic) ∧
    List.Forall₂ (fun v ty => m.typeOf v = .ok ty) (values.take declared.length) declared ∧
    (variadic = false → values.length = declared.length)

/-- What a support function takes suits its type. -/
theorem SupportFunction.IsGiven.suits (h : g.IsGiven m values) (hty : g.IsTypedAt m.types ty) :
    m.Suits ty values := by
  obtain ⟨declared, ret, hget, hdeclared, -⟩ := hty
  rw [Module.Suits]
  refine ⟨declared, ret, g.isVariadic, hget, ?_, fun hfixed =>
    (h.length hfixed).trans hdeclared.length_eq⟩
  rw [← hdeclared.length_eq]
  have hgiven := h.params
  clear hget
  generalize values.take g.params.length = taken at hgiven
  generalize g.params = params at hdeclared hgiven
  induction hgiven generalizing declared with
  | nil =>
      cases hdeclared
      exact .nil
  | cons hv _ ih =>
      obtain ⟨ty, rest, hfirst, hrest, rfl⟩ := List.forall₂_cons_left_iff.1 hdeclared
      exact .cons (hv.typeOf hfirst) (ih rest hrest)

/-- On the way from a state to a later one, lowering goes from one state to another in some way. -/
def Lowering.Between (R : Lowering → Lowering → Prop) (s s' : Lowering) : Prop :=
  ∃ s₁ s₂, s.Evolves s₁ ∧ R s₁ s₂ ∧ s₂.Evolves s'

theorem Lowering.Between.around {R : Lowering → Lowering → Prop} {s₀ s₁ : Lowering}
    (h : s.Between R s') (hbefore : s₀.Evolves s) (hafter : s'.Evolves s₁) : s₀.Between R s₁ := by
  obtain ⟨t, t', ht, hR, ht'⟩ := h
  exact ⟨t, t', hbefore.trans ht, hR, ht'.trans hafter⟩

namespace Lower

/-! ### Calls -/

/-- A support function is called, or at least the call is asked for, with values that suit its
signature. -/
def IsCallOf (g : SupportFunction) (s s' : Lowering) : Prop :=
  ∃ f values answer, s.module.functionByName? g.symbol = some f ∧
    (emitCall f values s = .ok (answer, s') ∨
      (liftM (Build.call f values) : Lower (Option ValueId)) s = .ok (answer, s')) ∧
    ∀ {m m' : Module} {fnTy : TypeId}, g.signature m = .ok (fnTy, m') → m'.Evolves s.module →
      s.module.Suits fnTy values

/-- The function with the name of a support function is called with what that takes. -/
theorem isCallOf_of_name {f : FunctionId} {answer : Option ValueId}
    (hname : s.module.functionByName? g.symbol = some f) (hgiven : g.IsGiven s.module values)
    (hcall : emitCall f values s = .ok (answer, s') ∨
      (liftM (Build.call f values) : Lower (Option ValueId)) s = .ok (answer, s')) :
    IsCallOf g s s' :=
  ⟨f, values, answer, hname, hcall, fun hsignature hbefore =>
    hgiven.suits ((SupportFunction.isTypedAt_of_signature hsignature).mono hbefore.types)⟩

/-- The answer of a call has the type that the function declares for it. -/
theorem eq_of_callResultType {f : FunctionId} {d : FunctionData} {declared : List TypeId}
    {ret result : TypeId} {variadic : Bool} (hf : m.function f = .ok d)
    (hty : m.types.get d.ty = .ok (.function declared ret variadic))
    (h : Build.callResultType f values m = .ok (result, m')) : result = ret := by
  unfold Build.callResultType at h
  obtain ⟨d', hd', h⟩ := Build.ask_bind_eq_ok h
  cases hf.symm.trans hd'
  obtain ⟨t, ht, h⟩ := Build.ask_bind_eq_ok h
  cases hty.symm.trans ht
  change (if ¬ (Signature.mk declared ret variadic).Accepts values then do
      Build.codegenError
      return ret
    else return ret : Build TypeId) m = _ at h
  split at h
  · cases Build.codegenError_bind_eq_ok h
    rfl
  · cases h
    rfl

/-- A call is put into the block, or it ends the block and goes on in a new one. -/
theorem emitCall_eq_ok {f : FunctionId} {answer : Option ValueId}
    (h : emitCall f values s = .ok (answer, s')) :
    (liftM (Build.call f values) : Lower (Option ValueId)) s = .ok (answer, s') ∨
      ∃ name normal unwind s₁ s₂, appendBlock name s = .ok (normal, s₁) ∧
        (liftM (Build.invoke f values normal unwind) : Lower (Option ValueId)) s₁ =
          .ok (answer, s₂) ∧
        (liftM (Build.positionAtEnd normal) : Lower Unit) s₂ = .ok ((), s') := by
  unfold emitCall at h
  rw [bind_of_ok (get_apply s), bind_of_ok (get_apply s)] at h
  cases htries : s.pass.tries with
  | nil =>
      rw [htries] at h
      exact .inl h
  | cons frame rest =>
      rw [htries] at h
      obtain ⟨unwinds, hrun⟩ : ∃ unwinds : Bool, (if unwinds then do
          let normal ← appendBlock "invoke.cont"
          let result ← Build.invoke f values normal frame.landing
          Build.positionAtEnd normal
          return result
        else Build.call f values : Lower (Option ValueId)) s = .ok (answer, s') := ⟨_, h⟩
      cases unwinds with
      | false => exact .inl hrun
      | true =>
          obtain ⟨normal, s₁, hblock, h⟩ := bind_eq_ok_iff.1 hrun
          obtain ⟨result, s₂, hinvoke, h⟩ := bind_eq_ok_iff.1 h
          obtain ⟨_, s₃, hposition, hend⟩ := bind_eq_ok_iff.1 h
          cases hend
          exact .inr ⟨_, normal, _, s₁, s₂, hblock, hinvoke, hposition⟩

/-- What a call answers with has the type that the function declares for it. -/
theorem typeOf_of_emitCall {f : FunctionId} {d : FunctionData} {declared : List TypeId}
    {ret : TypeId} {variadic : Bool} (hs : s.Known) (hf : s.module.function f = .ok d)
    (hty : s.module.types.get d.ty = .ok (.function declared ret variadic))
    (h : emitCall f values s = .ok (some v, s')) : s'.module.typeOf v = .ok ret := by
  rcases emitCall_eq_ok h with hcall | ⟨name, normal, unwind, s₁, s₂, hblock, hinvoke, hposition⟩
  · obtain ⟨m, hrun, rfl⟩ := build_eq_ok_iff.1 hcall
    obtain ⟨result, m₁, hresult, h₁⟩ := bind_eq_ok_iff.1 hrun
    obtain rfl := eq_of_callResultType hf hty hresult
    obtain ⟨u, m₂, hpush, h₂⟩ := bind_eq_ok_iff.1 h₁
    obtain ⟨t, -, h₃⟩ := Build.ask_bind_eq_ok h₂
    have hu := (Build.makes_pushInstr result _).run hpush
    split at h₃ <;> cases h₃
    exact hu
  · have h₁ := Stepwise.later hs hblock
    have hs₂ := (Stepwise.later (h₁.known hs) hinvoke).known (h₁.known hs)
    refine (Stepwise.later hs₂ hposition).module.typeOf ?_
    obtain ⟨d', hd', hgrows⟩ := h₁.module.function hf
    have hty' : s₁.module.types.get d'.ty = .ok (.function declared ret variadic) :=
      hgrows.ty ▸ h₁.module.types.get_of_isOpaque_eq_false hty rfl
    obtain ⟨m, hrun, rfl⟩ := build_eq_ok_iff.1 hinvoke
    obtain ⟨result, m₁, hresult, h₂⟩ := bind_eq_ok_iff.1 hrun
    obtain rfl := eq_of_callResultType hd' hty' hresult
    obtain ⟨t, -, h₃⟩ := Build.ask_bind_eq_ok h₂
    dsimp only at h₃
    split at h₃
    · obtain ⟨_, m₃, hnone, h₄⟩ := bind_eq_ok_iff.1 h₃
      obtain ⟨_, m₄, -, hend⟩ := bind_eq_ok_iff.1 h₄
      cases hnone
      cases hend
    · obtain ⟨u, m₃, hpush, h₄⟩ := bind_eq_ok_iff.1 h₃
      obtain ⟨_, m₄, hsome, h₅⟩ := bind_eq_ok_iff.1 h₄
      obtain ⟨_, m₅, hterminator, hend⟩ := bind_eq_ok_iff.1 h₅
      cases hsome
      cases hend
      have hlater : m₃.Evolves m := Build.evolves_setTerminator hterminator
      exact hlater.typeOf ((Build.makes_pushValue result _).run hpush)

/-- A support function is declared with its signature, unless a function had its name before. -/
theorem gives_declared (hs : s.Known)
    (hname : s.module.functionByName? g.symbol = none ∨ g.IsDeclared s.module) :
    Gives (fun s' f => s'.module.functionByName? g.symbol = some f ∧ g.IsDeclared s'.module)
      (support g) s := by
  refine ⟨fun {f s'} h => ?_⟩
  obtain ⟨hlater, hf⟩ := (gives_support g hs).run h
  refine ⟨hlater, hf, ?_⟩
  rcases hname with hnew | hdeclared
  · rw [support, bind_of_ok (get_apply s)] at h
    obtain ⟨⟨f', table⟩, s₁, hget, h⟩ := bind_eq_ok_iff.1 h
    obtain ⟨m, hrun, rfl⟩ := build_eq_ok_iff.1 hget
    cases h
    unfold SupportTable.get at hrun
    cases hfound : s.context.support.declared.get? g with
    | some known =>
        obtain ⟨_, ⟨⟩, hknown⟩ := hs.support hfound
        cases hnew.symm.trans hknown
    | none =>
        rw [hfound] at hrun
        obtain ⟨ty, m₁, hsignature, hrun⟩ := bind_eq_ok_iff.1 hrun
        obtain ⟨f', m₂, hdeclare, hend⟩ := bind_eq_ok_iff.1 hrun
        cases hend
        have hindex : m₁.functionIndex = s.module.functionIndex := Build.Preserves.same hsignature
        have hnew₁ : m₁.functionByName? g.symbol = none := by
          rw [Module.functionByName?, hindex]
          exact hnew
        obtain ⟨params, hd⟩ := Build.function_of_declareFunction hnew₁ hdeclare
        exact ⟨f, _, hf, hd, (SupportFunction.isTypedAt_of_signature hsignature).mono
          (Build.evolves hdeclare).types⟩
  · exact hdeclared.mono hlater.module

/-- What a support function answers with has the type of its signature. -/
theorem isTypeOf_of_emitCall {f : FunctionId} (hs : s.Known)
    (hname : s.module.functionByName? g.symbol = some f) (hdeclared : g.IsDeclared s.module)
    (h : emitCall f values s = .ok (some v, s')) : g.result.IsTypeOf s'.module v := by
  obtain ⟨f', d, hf', hd, declared, ret, hty, -, hret⟩ := hdeclared
  cases hname.symm.trans hf'
  exact ⟨ret, typeOf_of_emitCall hs hd hty h, hret.mono (Stepwise.later hs h).module.types⟩

/-! ### What is handed over -/

theorem isAt_bytePointer {bytes : TypeId} (h : bytePointer m = .ok (bytes, m')) :
    SupportType.bytes.IsAt m'.types bytes := by
  obtain ⟨byte, m₁, hbyte, hptr⟩ := bind_eq_ok_iff.1 h
  have hlater := (Build.evolves hptr).types
  cases hbyte
  cases hptr
  exact ⟨_, hlater.get_of_isOpaque_eq_false (Module.get_intern _ _) rfl, Module.get_intern _ _⟩

/-- An address that is passed on is one of bytes. -/
theorem isTypeOf_bytes {value : ValueId}
    (h : (do Build.cast .bitcast value (← bytePointer) : Build ValueId) m = .ok (v, m')) :
    SupportType.bytes.IsTypeOf m' v := by
  obtain ⟨bytes, m₁, hbytes, hcast⟩ := bind_eq_ok_iff.1 h
  have hlater := (Build.evolves hcast).types
  exact ⟨bytes, (Build.makes_cast .bitcast value bytes).run hcast,
    (isAt_bytePointer hbytes).mono hlater⟩

theorem isTypeOf_constLong {w : Int64} (h : constLong w m = .ok (v, m')) :
    SupportType.long.IsTypeOf m' v := by
  obtain ⟨long, m₁, hlong, hconst⟩ := bind_eq_ok_iff.1 h
  have hlater := (Build.evolves hconst).types
  cases hlong
  exact ⟨_, (Build.makes_constInt _ w).run hconst,
    hlater.get_of_isOpaque_eq_false (Module.get_intern _ _) rfl⟩

/-- A text is at an address of bytes. -/
theorem isTypeOf_globalString {text : String} (h : Build.globalString text m = .ok (v, m')) :
    SupportType.bytes.IsTypeOf m' v := by
  obtain ⟨ty, byte, _, hvalue, hty, hbyte, -⟩ := Build.isText_globalString h
  exact ⟨ty, Module.typeOf_of_value hvalue, byte, hbyte, hty⟩

/-- The descriptor of a type is passed on as an address of bytes. -/
theorem gives_typeDescriptor (hs : s.Known) :
    Gives (fun s' v => SupportType.bytes.IsTypeOf s'.module v) (typeDescriptor ty) s := by
  refine ⟨fun {v s'} h => ⟨Stepwise.later hs h, ?_⟩⟩
  obtain ⟨label, s₁, -, h⟩ := bind_eq_ok_iff.1 h
  obtain ⟨now, s₂, hnow, h⟩ := bind_eq_ok_iff.1 h
  cases hnow
  obtain ⟨⟨global, table⟩, s₃, -, h⟩ := bind_eq_ok_iff.1 h
  obtain ⟨⟨⟩, s₄, -, h⟩ := bind_eq_ok_iff.1 h
  obtain ⟨bytes, s₅, hbytes, hcast⟩ := bind_eq_ok_iff.1 h
  obtain ⟨m₅, hbytes', rfl⟩ := build_eq_ok_iff.1 hbytes
  obtain ⟨m₆, hcast', rfl⟩ := build_eq_ok_iff.1 hcast
  exact isTypeOf_bytes (bind_eq_ok_iff.2 ⟨bytes, m₅, hbytes', hcast'⟩)

/-- What disposes of an exception is passed on as an address of bytes. -/
theorem yields_throwDestructor {span : Span} (hs : s.Known) :
    Yields (fun s' v => SupportType.bytes.IsTypeOf s'.module v) (throwDestructor ty span) s := by
  have hcast {s : Lowering} {bytes : TypeId} (f : FunctionId) (hs : s.Known)
      (hat : SupportType.bytes.IsAt s.module.types bytes) :
      Yields (fun s' v => SupportType.bytes.IsTypeOf s'.module v) (do
        let ptr ← Build.functionPtr f
        Build.cast .bitcast ptr bytes) s := by
    refine Yields.step hs fun ptr s₁ h₁ hs₁ => .lift (.build fun hrun hlater => ?_)
    exact ⟨bytes, (Build.makes_cast .bitcast ptr bytes).run hrun,
      (hat.mono h₁.module.types).mono hlater.types⟩
  unfold throwDestructor
  refine Yields.bind (.lift (.build fun hrun _ => isAt_bytePointer hrun)) hs
    fun bytes s₁ h₁ hs₁ hat => Yields.step hs₁ fun t s₂ h₂ hs₂ => ?_
  have hat₂ := hat.mono h₂.module.types
  split
  · refine .lift (.build fun hrun hlater => ?_)
    exact ⟨bytes, (Build.makes_pushValue bytes _).run hrun, hat₂.mono hlater.types⟩
  · refine Yields.step hs₂ fun now s₃ h₃ hs₃ => ?_
    have hat₃ := hat₂.mono h₃.module.types
    split
    · exact Yields.step hs₃ fun _ s₄ h₄ hs₄ => hcast _ hs₄ (hat₃.mono h₄.module.types)
    · have (f : FunctionId) : Stepwise (modifyContext fun c =>
          { c with throwables := c.throwables.setDestructor ty f }) :=
        stepwise_modifyContext fun _ => ⟨rfl, rfl, rfl, rfl, rfl, rfl, rfl⟩
      exact Yields.step hs₃ fun f s₄ h₄ hs₄ => Yields.step hs₄ fun _ s₅ h₅ hs₅ =>
        Yields.step hs₅ fun _ s₆ h₆ hs₆ =>
        hcast _ hs₆ (((hat₃.mono h₄.module.types).mono h₅.module.types).mono h₆.module.types)

/-! ### Where support functions are called -/

/-- A computation that on its way goes from one state to another in some way. -/
abbrev Passes {α : Type} (R : Lowering → Lowering → Prop) (x : Lower α) (s : Lowering) : Prop :=
  Gives (fun s' _ => s.Between R s') x s

namespace Passes

variable {α β : Type} {R : Lowering → Lowering → Prop} {x : Lower α} {k : α → Lower β}
  {P : Lowering → α → Prop}

/-- It goes so behind what makes a value for it. -/
theorem bind (hx : Gives P x s) (hs : s.Known)
    (hk : ∀ a s₁, s.Evolves s₁ → s₁.Known → P s₁ a → Passes R (k a) s₁) :
    Passes R (x >>= k) s where
  run hrun := by
    obtain ⟨a, s₁, hfirst, hrest⟩ := bind_eq_ok_iff.1 hrun
    obtain ⟨h₁, ha⟩ := hx.run hfirst
    obtain ⟨h₂, hbetween⟩ := (hk a s₁ h₁ (h₁.known hs) ha).run hrest
    exact ⟨h₁.trans h₂, hbetween.around h₁ (.refl _)⟩

theorem step [Stepwise x] (hs : s.Known)
    (hk : ∀ a s₁, s.Evolves s₁ → s₁.Known → Passes R (k a) s₁) : Passes R (x >>= k) s :=
  bind (.of_stepwise hs) hs fun a s₁ h₁ hs₁ _ => hk a s₁ h₁ hs₁

/-- It goes so at first. -/
theorem first (hx : Passes R x s) (hs : s.Known) (hk : ∀ a, Stepwise (k a)) :
    Passes R (x >>= k) s where
  run hrun := by
    obtain ⟨a, s₁, hfirst, hrest⟩ := bind_eq_ok_iff.1 hrun
    obtain ⟨h₁, hbetween⟩ := hx.run hfirst
    have h₂ := (hk a).later (h₁.known hs) hrest
    exact ⟨h₁.trans h₂, hbetween.around (.refl _) h₂⟩

/-- It goes so all the way. -/
theorem whole [Stepwise x] (hs : s.Known) (hx : ∀ {a s'}, x s = .ok (a, s') → R s s') :
    Passes R x s where
  run hrun := ⟨Stepwise.later hs hrun, s, _, .refl _, hx hrun, .refl _⟩

end Passes

/-- On its way a computation calls a support function with values that suit its signature. -/
abbrev CallsOut {α : Type} (g : SupportFunction) (x : Lower α) (s : Lowering) : Prop :=
  Passes (IsCallOf g) x s

theorem callsOut_emitCall {f : FunctionId} (hs : s.Known)
    (hname : s.module.functionByName? g.symbol = some f) (hgiven : g.IsGiven s.module values) :
    CallsOut g (emitCall f values) s :=
  .whole hs fun h => isCallOf_of_name hname hgiven (.inl h)

theorem callsOut_call {f : FunctionId} (hs : s.Known)
    (hname : s.module.functionByName? g.symbol = some f) (hgiven : g.IsGiven s.module values) :
    CallsOut g (liftM (Build.call f values) : Lower (Option ValueId)) s :=
  .whole hs fun h => isCallOf_of_name hname hgiven (.inr h)

theorem callsOut_callSupport (hs : s.Known) (hgiven : g.IsGiven s.module values) :
    CallsOut g (callSupport g values) s := by
  refine .bind (gives_support g hs) hs fun f s₁ h₁ hs₁ hname => callsOut_emitCall hs₁ hname ?_
  exact hgiven.mono h₁.module

/-- New memory is asked for by the number of values and the size of one of them. -/
theorem callsOut_heapAlloc (hs : s.Known) : CallsOut .calloc (heapAlloc ty) s := by
  refine .bind (gives_support .calloc hs) hs fun f s₁ h₁ hs₁ hname => ?_
  refine .bind (.build fun hrun _ => isTypeOf_constLong hrun) hs₁ fun count s₂ h₂ hs₂ hcount => ?_
  refine .step hs₂ fun n s₃ h₃ hs₃ => ?_
  refine .bind (.build fun hrun _ => isTypeOf_constLong hrun) hs₃ fun size s₄ h₄ hs₄ hsize => ?_
  have hgiven : SupportFunction.calloc.IsGiven s₄.module [count, size] :=
    ⟨.cons (hcount.mono (h₃.trans h₄).module) (.cons hsize .nil), fun _ => rfl⟩
  have hlater := (h₂.trans h₃).trans h₄
  refine (callsOut_emitCall hs₄ (hlater.module.functionByName? hname) hgiven).first hs₄ fun raw => ?_
  cases raw <;> infer_instance

/-- A buffer is given back by its address. -/
theorem callsOut_freeBuffer {buffer : ValueId} (hs : s.Known) :
    CallsOut .free (DynamicArray.freeBuffer buffer) s := by
  refine .bind (.build fun hrun _ => isAt_bytePointer hrun) hs fun bytes s₁ h₁ hs₁ hat => ?_
  refine .bind (P := fun s' v => SupportType.bytes.IsTypeOf s'.module v) (.build fun hrun hlater =>
    ⟨bytes, (Build.makes_cast .bitcast buffer bytes).run hrun, hat.mono hlater.types⟩) hs₁
    fun raw s₂ h₂ hs₂ hraw => ?_
  refine .bind (gives_support .free hs₂) hs₂ fun f s₃ h₃ hs₃ hname => ?_
  have hgiven : SupportFunction.free.IsGiven s₃.module [raw] :=
    ⟨.cons (hraw.mono h₃.module) .nil, fun _ => rfl⟩
  exact (callsOut_call hs₃ hname hgiven).first (k := fun _ => pure PUnit.unit) hs₃ fun _ => inferInstance

/-- An array that is deleted gives back its buffer. -/
theorem callsOut_deleteBody {f : FunctionId} (hs : s.Known) :
    CallsOut .free (DynamicArray.deleteBody f) s := by
  refine .step hs fun _ _ _ _ => ?_
  iterate 14 refine .step (by assumption) fun _ _ _ _ => ?_
  refine (callsOut_freeBuffer (by assumption)).first (by assumption) fun _ => ?_
  infer_instance

/-- Behind the bounds of an array the program ends. -/
theorem callsOut_indexBody {f : FunctionId} (hs : s.Known) :
    CallsOut .abort (DynamicArray.indexBody f) s := by
  refine .step hs fun _ _ _ _ => ?_
  iterate 14 refine .step (by assumption) fun _ _ _ _ => ?_
  refine .bind (gives_support .abort (by assumption)) (by assumption) fun f s' _ hs' hname => ?_
  exact (callsOut_call hs' hname ⟨.nil, fun _ => rfl⟩).first hs' fun _ => inferInstance

/-- The capacity of a longer buffer is a word of full width. -/
theorem gives_newCapacity {long : TypeId} {b : DynamicArray.AppendBlocks}
    {values : DynamicArray.AppendValues} (hlong : s.module.types.get long = .ok (.int 64)) :
    Gives (fun s' v => SupportType.long.IsTypeOf s'.module v)
      (liftM (DynamicArray.newCapacity long b values) : Lower ValueId) s := by
  refine .build fun {v m} hrun hlater => ?_
  have hmakes : Build.Makes long (DynamicArray.newCapacity long b values) := by
    unfold DynamicArray.newCapacity
    iterate 11 refine .last fun _ => ?_
    exact Build.makes_pushInstr long _
  exact ⟨long, hmakes.run hrun, hlater.types.get_of_isOpaque_eq_false hlong rfl⟩

/-- A longer buffer is asked for by the capacity and the size of an element. -/
theorem callsOut_newBuffer {elemPtr long : TypeId} {size : Int64} {capacity : ValueId} (hs : s.Known)
    (hlong : s.module.types.get long = .ok (.int 64))
    (hcapacity : SupportType.long.IsTypeOf s.module capacity) :
    CallsOut .calloc (DynamicArray.newBuffer elemPtr long size capacity) s := by
  refine .bind (P := fun s' v => SupportType.long.IsTypeOf s'.module v) (.build fun hrun hlater =>
    ⟨long, (Build.makes_constInt long size).run hrun,
      hlater.types.get_of_isOpaque_eq_false hlong rfl⟩) hs fun size s₁ h₁ hs₁ hsize => ?_
  refine .bind (gives_support .calloc hs₁) hs₁ fun f s₂ h₂ hs₂ hname => ?_
  have hgiven : SupportFunction.calloc.IsGiven s₂.module [capacity, size] :=
    ⟨.cons (hcapacity.mono (h₁.trans h₂).module) (.cons (hsize.mono h₂.module) .nil), fun _ => rfl⟩
  refine (callsOut_call hs₂ hname hgiven).first hs₂ fun raw => ?_
  cases raw <;> infer_instance

/-- The old buffer is given back. -/
theorem callsOut_replaceBuffer {b : DynamicArray.AppendBlocks} {values : DynamicArray.AppendValues}
    {newData oldData capacity : ValueId} (hs : s.Known) :
    CallsOut .free (DynamicArray.replaceBuffer b values newData oldData capacity) s := by
  refine .step hs fun _ _ _ _ => ?_
  iterate 3 refine .step (by assumption) fun _ _ _ _ => ?_
  refine (callsOut_freeBuffer (by assumption)).first (by assumption) fun _ => ?_
  infer_instance

/-- An array that grows asks for a longer buffer and gives back the old one. -/
theorem callsOut_appendBody {f : FunctionId} (hs : s.Known) :
    CallsOut .calloc (DynamicArray.appendBody f ty) s ∧
      CallsOut .free (DynamicArray.appendBody f ty) s := by
  constructor
  · refine .bind (P := fun s' long => s'.module.types.get long = .ok (.int 64))
      (.internType rfl rfl fun _ hlong => hlong) hs fun long s₁ h₁ hs₁ hlong => ?_
    refine .step hs₁ fun elemPtr s₂ h₂ hs₂ => .step hs₂ fun size s₃ h₃ hs₃ =>
      .step hs₃ fun b s₄ h₄ hs₄ => .step hs₄ fun values s₅ h₅ hs₅ => ?_
    have hlater := ((h₂.trans h₃).trans h₄).trans h₅
    have hlong₅ := hlater.module.types.get_of_isOpaque_eq_false hlong rfl
    refine .bind (gives_newCapacity hlong₅) hs₅ fun capacity s₆ h₆ hs₆ hcapacity => ?_
    have hlong₆ := h₆.module.types.get_of_isOpaque_eq_false hlong₅ rfl
    exact (callsOut_newBuffer hs₆ hlong₆ hcapacity).first hs₆ fun _ => inferInstance
  · refine .step hs fun _ _ _ _ => ?_
    iterate 8 refine .step (by assumption) fun _ _ _ _ => ?_
    refine .first (callsOut_replaceBuffer (by assumption)) (by assumption) fun _ => inferInstance

/-- What is printed comes behind the format. -/
theorem callsOut_emitPrintf {format : String} {args : List ValueId} (hs : s.Known) :
    CallsOut .printf (emitPrintf format args) s := by
  refine .bind (gives_support .printf hs) hs fun f s₁ h₁ hs₁ hname => ?_
  refine .bind (.build fun hrun _ => isTypeOf_globalString hrun) hs₁ fun text s₂ h₂ hs₂ htext => ?_
  have hgiven : SupportFunction.printf.IsGiven s₂.module (text :: args) :=
    ⟨.cons htext .nil, fun hfixed => by cases hfixed⟩
  exact (callsOut_emitCall hs₂ (h₂.module.functionByName? hname) hgiven).first
    (k := fun _ => pure PUnit.unit) hs₂ fun _ => inferInstance

/-- An exception is claimed by the address that has arrived. -/
theorem callsOut_beginCatch {payload : ValueId} (hs : s.Known)
    (hpayload : SupportType.bytes.IsTypeOf s.module payload) :
    CallsOut .beginCatch (beginCatch payload) s := by
  have hgiven : SupportFunction.beginCatch.IsGiven s.module [payload] :=
    ⟨.cons hpayload .nil, fun _ => rfl⟩
  exact (callsOut_callSupport hs hgiven).first hs fun _ => inferInstance

/-- A handler claims its exception before all else. -/
theorem callsOut_catchBody {r : Recur} [r.IsStepwise] {clause : CatchClause Node} {payload : ValueId}
    {endBlock : BlockId} (hs : s.Known) (hpayload : SupportType.bytes.IsTypeOf s.module payload) :
    CallsOut .beginCatch (r.catchBody clause ty payload endBlock) s := by
  refine (callsOut_beginCatch hs hpayload).first hs fun raw => ?_
  refine .bind fun _ => .bind fun _ => .bind fun _ => .bind fun _ => .bind fun _ => .bind fun _ => ?_
  split <;> infer_instance

/-- A handler is lowered, and it claims the exception first. -/
def IsHandler (r : Recur) (clause : CatchClause Node × TypeId) (s s' : Lowering) : Prop :=
  ∃ payload endBlock, r.catchBody clause.1 clause.2 payload endBlock s = .ok ((), s') ∧
    s.Between (IsCallOf .beginCatch) s'

/-- Every handler of a `try` claims the exception that has arrived. -/
theorem passes_dispatchClauses {r : Recur} [r.IsStepwise] {pad payload selector : ValueId}
    {endBlock : BlockId} {clauses : List (CatchClause Node × TypeId)}
    {clause : CatchClause Node × TypeId} (hs : s.Known)
    (hpayload : SupportType.bytes.IsTypeOf s.module payload) (hclause : clause ∈ clauses) :
    Passes (IsHandler r clause) (r.dispatchClauses pad payload selector endBlock clauses) s := by
  induction clauses generalizing s with
  | nil => cases hclause
  | cons c rest ih =>
      refine .step hs fun hit s₁ h₁ hs₁ => .step hs₁ fun catchBlock s₂ h₂ hs₂ =>
        .step hs₂ fun next s₃ h₃ hs₃ => .step hs₃ fun _ s₄ h₄ hs₄ => .step hs₄ fun _ s₅ h₅ hs₅ => ?_
      have hpayload₅ := hpayload.mono ((h₁.trans h₂).trans ((h₃.trans h₄).trans h₅)).module
      rcases List.mem_cons.1 hclause with rfl | hclause
      · refine .first (.whole hs₅ fun {_ s'} hrun => ⟨payload, endBlock, hrun, ?_⟩) hs₅
          fun _ => inferInstance
        exact ((callsOut_catchBody hs₅ hpayload₅).run hrun).2
      · exact .step hs₅ fun _ s₆ h₆ hs₆ => .step hs₆ fun _ s₇ h₇ hs₇ =>
          ih hs₇ (hpayload₅.mono (h₆.trans h₇).module) hclause

/-- Where a handler comes to its end, the exception is released. -/
theorem callsOut_endCatch {endBlock : BlockId} (hs : s.Known)
    (hopen : s.module.currentBlockTerminated = .ok false) :
    CallsOut .endCatch (endCatch endBlock) s := by
  have hask : (liftM (Build.ask Module.currentBlockTerminated) : Lower Bool) s = .ok (false, s) :=
    build_of_ok (Build.ask_of_ok hopen)
  have hrelease : CallsOut .endCatch (do
      let _ ← callSupport .endCatch []
      Build.br endBlock : Lower Unit) s :=
    (callsOut_callSupport hs ⟨.nil, fun _ => rfl⟩).first hs fun _ => inferInstance
  refine ⟨fun {a s'} hrun => hrelease.run (a := a) ?_⟩
  rw [endCatch, bind_of_ok hask] at hrun
  exact hrun

/-- Without handlers what a `try` stops for is claimed and dropped, and anything else ends the
program. -/
theorem callsOut_dispatchImplicit {handled : List TypeId} {payload selector : ValueId}
    {endBlock : BlockId} (hs : s.Known)
    (hpayload : SupportType.bytes.IsTypeOf s.module payload) :
    CallsOut .abort (dispatchImplicit handled payload selector endBlock) s ∧
      CallsOut .beginCatch (dispatchImplicit handled payload selector endBlock) s := by
  constructor
  · refine .step hs fun catchBlock s₁ h₁ hs₁ => .step hs₁ fun _ s₂ h₂ hs₂ => ?_
    refine (callsOut_callSupport hs₂ ⟨.nil, fun _ => rfl⟩).first hs₂ fun _ => ?_
    exact inferInstance
  · refine .step hs fun catchBlock s₁ h₁ hs₁ => .step hs₁ fun _ s₂ h₂ hs₂ =>
      .step hs₂ fun _ s₃ h₃ hs₃ => .step hs₃ fun _ s₄ h₄ hs₄ => .step hs₄ fun _ s₅ h₅ hs₅ => ?_
    have hlater := ((h₁.trans h₂).trans (h₃.trans h₄)).trans h₅
    exact (callsOut_beginCatch hs₅ (hpayload.mono hlater.module)).first hs₅ fun _ => inferInstance

/-- What is done with an exception that has arrived in a `try`. -/
def Dispatches (r : Recur) (catches : List (CatchClause Node))
    (clauses : List (CatchClause Node × TypeId)) (s s' : Lowering) : Prop :=
  if catches.isEmpty then s.Between (IsCallOf .abort) s' ∧ s.Between (IsCallOf .beginCatch) s'
  else ∀ c ∈ clauses, s.Between (IsHandler r c) s'

/-- A landing pad hands over its payload, an address of bytes. -/
theorem isTypeOf_extractValue {pad : ValueId} {padTy bytes word : TypeId}
    (hpad : m.typeOf pad = .ok padTy) (hpadTy : m.types.get padTy = .ok (.record [bytes, word]))
    (hbytes : SupportType.bytes.IsAt m.types bytes)
    (h : Build.extractValue pad 0 m = .ok (v, m')) : SupportType.bytes.IsTypeOf m' v := by
  have hlater : m.Evolves m' := Build.evolves h
  obtain ⟨ty, hty, h₁⟩ := Build.ask_bind_eq_ok h
  cases hpad.symm.trans hty
  obtain ⟨t, ht, h₂⟩ := Build.ask_bind_eq_ok h₁
  cases hpadTy.symm.trans ht
  exact ⟨bytes, (Build.makes_pushInstr bytes _).run h₂, hbytes.mono hlater.types⟩

/-- The payload is read from the room that was made for what arrives. -/
theorem passes_landing {R : Lowering → Lowering → Prop} {landing dispatch : BlockId}
    {handled : List TypeId} {catchAll : Bool} {padSlot : ValueId} {padTy bytes word : TypeId}
    {k : ValueId → ValueId → ValueId → Lower Unit} (hs : s.Known)
    (hslot : s.module.valueType padSlot = .ok (.pointer padTy))
    (hpadTy : s.module.types.get padTy = .ok (.record [bytes, word]))
    (hbytes : SupportType.bytes.IsAt s.module.types bytes)
    (hk : ∀ {pad payload selector s}, s.Known → SupportType.bytes.IsTypeOf s.module payload →
      Passes R (k pad payload selector) s) :
    Passes R (do
      Build.positionAtEnd landing
      let pad ← emitLandingPad handled catchAll
      Build.store pad padSlot
      Build.br dispatch
      Build.positionAtEnd dispatch
      let pad ← Build.load padSlot
      let payload ← Build.extractValue pad 0
      let selector ← Build.extractValue pad 1
      k pad payload selector : Lower Unit) s := by
  refine .step hs fun _ s₁ h₁ hs₁ => .step hs₁ fun arrived s₂ h₂ hs₂ =>
    .step hs₂ fun _ s₃ h₃ hs₃ => .step hs₃ fun _ s₄ h₄ hs₄ => .step hs₄ fun _ s₅ h₅ hs₅ => ?_
  have hlater := ((h₁.trans h₂).trans (h₃.trans h₄)).trans h₅
  refine .bind (P := fun s' pad => s'.module.typeOf pad = .ok padTy) (.build (fun hrun _ =>
    Build.typeOf_of_load (hlater.module.valueType_pointer hslot) hrun)) hs₅
    fun pad s₆ h₆ hs₆ hpad => ?_
  have hlater₆ := (hlater.trans h₆).module.types
  refine .bind (.build fun hrun _ => isTypeOf_extractValue hpad
    (hlater₆.get_of_isOpaque_eq_false hpadTy rfl) (hbytes.mono hlater₆) hrun) hs₆
    fun payload s₇ h₇ hs₇ hpayload => .step hs₇ fun selector s₈ h₈ hs₈ => ?_
  exact hk hs₈ (hpayload.mono h₈.module)

/-- Wherever an exception arrives in a `try`, it is handed over by an address of bytes. -/
theorem passes_tryCatch {r : Recur} [r.IsStepwise] {f : FunctionState} {body : Option Node}
    {catches : List (CatchClause Node)} {span : Span} (hs : s.Known)
    (hfunc : s.pass.func = some f) :
    Passes (fun s₁ s₂ => ∃ clauses t, r.catchClauses span [] catches s₁ = .ok (clauses, t) ∧
      t.Between (Dispatches r catches clauses) s₂) (r.tryCatch body catches span) s := by
  refine ⟨fun {a s'} hrun => ?_⟩
  rw [Recur.tryCatch, bind_of_ok (func_apply s), hfunc] at hrun
  obtain ⟨personality, s₁, hsupport, hrun⟩ := bind_eq_ok_iff.1 hrun
  have h₁ := Stepwise.later hs hsupport
  obtain ⟨_, s₂, hset, hrun⟩ := bind_eq_ok_iff.1 hrun
  have h₂ := h₁.trans (Stepwise.later (h₁.known hs) hset)
  obtain ⟨clauses, s₃, hclauses, hrest⟩ := bind_eq_ok_iff.1 hrun
  have h₃ := h₂.trans (Stepwise.later (h₂.known hs) hclauses)
  have hs₃ := h₃.known hs
  suffices hboth : s₃.Evolves s' ∧ s₃.Between (Dispatches r catches clauses) s' from
    ⟨h₃.trans hboth.1, s₂, s', h₂, ⟨clauses, s₃, hclauses, hboth.2⟩, .refl _⟩
  refine Gives.run (P := fun s' _ => s₃.Between (Dispatches r catches clauses) s') ?_ hrest
  refine Passes.step hs₃ fun landing s₄ h₄ hs₄ => .step hs₄ fun dispatch s₅ h₅ hs₅ =>
    .step hs₅ fun endBlock s₆ h₆ hs₆ => ?_
  refine .bind (.build fun hrun _ => isAt_bytePointer hrun) hs₆ fun bytes s₇ h₇ hs₇ hbytes => ?_
  refine .bind (P := fun s' word => s'.module.types.get word = .ok (.int 32))
    (.internType rfl rfl fun _ hword => hword) hs₇ fun word s₈ h₈ hs₈ hword => ?_
  have hbytes₈ := hbytes.mono h₈.module.types
  refine .bind (P := fun s' padTy => s'.module.types.get padTy = .ok (.record [bytes, word]))
    ⟨fun hrun => ?_⟩ hs₈ fun padTy s₉ h₉ hs₉ hpadTy => ?_
  · have hfields : ∀ f ∈ [bytes, word], s₈.module.types.Has f := by
      obtain ⟨_, -, hbytes⟩ := hbytes₈
      simp [TypeTable.Has, hbytes, hword]
    refine ⟨((proceeds_recordType hfields).run hrun).1, ?_⟩
    obtain ⟨m, hrecord, rfl⟩ := build_eq_ok_iff.1 hrun
    cases hrecord
    exact Module.get_intern _ _
  refine .bind ⟨fun hrun => ⟨Stepwise.later hs₉ hrun, valueType_entryAlloca hs₉ hrun⟩⟩ hs₉
    fun padSlot s₁₀ h₁₀ hs₁₀ hslot => ?_
  refine .step hs₁₀ fun thrown s₁₁ h₁₁ hs₁₁ => .step hs₁₁ fun _ s₁₂ h₁₂ hs₁₂ => ?_
  have hlater := (h₁₁.trans h₁₂).module
  have hslot₁₂ := hlater.valueType_pointer hslot
  have hpadTy₁₂ := (h₁₀.module.trans hlater).types.get_of_isOpaque_eq_false hpadTy rfl
  have hbytes₁₂ := hbytes₈.mono (h₉.module.trans (h₁₀.module.trans hlater)).types
  dsimp only
  split
  · rename_i hempty
    refine passes_landing hs₁₂ hslot₁₂ hpadTy₁₂ hbytes₁₂ fun hs hpayload => ?_
    refine .first (.whole hs fun hrun => ?_) hs fun _ => inferInstance
    obtain ⟨habort, hclaim⟩ := callsOut_dispatchImplicit hs hpayload
    rw [Dispatches, if_pos hempty]
    exact ⟨(habort.run hrun).2, (hclaim.run hrun).2⟩
  · rename_i hhandled
    refine .step hs₁₂ fun _ s₁₃ h₁₃ hs₁₃ => passes_landing hs₁₃
      (h₁₃.module.valueType_pointer hslot₁₂)
      (h₁₃.module.types.get_of_isOpaque_eq_false hpadTy₁₂ rfl) (hbytes₁₂.mono h₁₃.module.types)
      fun hs hpayload => ?_
    refine .first (.whole hs fun hrun => ?_) hs fun _ => inferInstance
    rw [Dispatches, if_neg hhandled]
    exact fun c hc => ((passes_dispatchClauses hs hpayload hc).run hrun).2

end Lower

namespace Attempt

/-- An attempt that, if it succeeds, on its way goes from one state to another in some way. -/
abbrev Passes {α : Type} (R : Lowering → Lowering → Prop) (x : Attempt α) (s : Lowering) : Prop :=
  Yields (fun s' _ => s.Between R s') x s

namespace Passes

variable {α β : Type} {R : Lowering → Lowering → Prop} {x : Attempt α} {k : α → Attempt β}
  {P : Lowering → α → Prop}

/-- It goes so behind what makes a value for it. -/
theorem bind (hx : Yields P x s) (hs : s.Known)
    (hk : ∀ a s₁, s.Evolves s₁ → s₁.Known → P s₁ a → Passes R (k a) s₁) :
    Passes R (x >>= k) s where
  run hrun := by
    rcases Attempt.bind_cases hrun with ⟨a, s₁, hfirst, hrest⟩ | ⟨hfirst, rfl⟩
    · obtain ⟨h₁, ha⟩ := hx.run hfirst
      obtain ⟨h₂, hbetween⟩ := (hk a s₁ h₁ (h₁.known hs) (ha a rfl)).run hrest
      exact ⟨h₁.trans h₂, fun b hb => (hbetween b hb).around h₁ (.refl _)⟩
    · exact ⟨(hx.run hfirst).1, fun b hb => by cases hb⟩

theorem step [hx : Stepwise x.run] (hs : s.Known)
    (hk : ∀ a s₁, s.Evolves s₁ → s₁.Known → Passes R (k a) s₁) : Passes R (x >>= k) s := by
  have hstep : Yields (fun _ _ => True) x s := ⟨fun h => ⟨hx.later hs h, fun _ _ => trivial⟩⟩
  exact bind hstep hs fun a s₁ h₁ hs₁ _ => hk a s₁ h₁ hs₁

/-- It goes so at first. -/
theorem first (hx : Passes R x s) (hs : s.Known) (hk : ∀ a, Stepwise (k a).run) :
    Passes R (x >>= k) s where
  run hrun := by
    rcases Attempt.bind_cases hrun with ⟨a, s₁, hfirst, hrest⟩ | ⟨hfirst, rfl⟩
    · obtain ⟨h₁, hbetween⟩ := hx.run hfirst
      have h₂ := (hk a).later (h₁.known hs) hrest
      exact ⟨h₁.trans h₂, fun b hb => (hbetween a rfl).around (.refl _) h₂⟩
    · exact ⟨(hx.run hfirst).1, fun b hb => by cases hb⟩

/-- What comes before is known. -/
theorem of_run {a : α} {s₁ : Lowering} [hstep : Stepwise x.run] (hx : x s = .ok (some a, s₁))
    (hs : s.Known) (hk : s.Evolves s₁ → s₁.Known → Passes R (k a) s₁) :
    Passes R (x >>= k) s := by
  have h₁ : s.Evolves s₁ := hstep.later hs hx
  have hyields : Yields (fun s' b => s' = s₁ ∧ b = a) x s := by
    refine ⟨fun hrun => ?_⟩
    cases hx.symm.trans hrun
    exact ⟨h₁, fun b hb => by cases hb; exact ⟨rfl, rfl⟩⟩
  refine bind hyields hs fun b s₂ _ _ heq => ?_
  obtain ⟨rfl, rfl⟩ := heq
  exact hk h₁ (h₁.known hs)

end Passes

/-- On its way an attempt that succeeds calls a support function with values that suit its
signature. -/
abbrev CallsOut {α : Type} (g : SupportFunction) (x : Attempt α) (s : Lowering) : Prop :=
  Passes (IsCallOf g) x s

/-- A number is converted to the type that a power takes. -/
theorem callsOut_of_convert {α : Type} {value : ValueId} {double : TypeId}
    {k : ValueId → Attempt α} (hs : s.Known)
    (hdouble : s.module.types.get double = .ok (.float 64))
    (hk : ∀ v s₁, s.Evolves s₁ → s₁.Known → SupportType.double.IsTypeOf s₁.module v →
      CallsOut g (k v) s₁) :
    CallsOut g (do
      let converted ← convert value double
      let v ← ofOption converted
      k v) s := by
  have hconvert : Gives (fun s' o => ∀ v ∈ o, SupportType.double.IsTypeOf s'.module v)
      (liftM (convert value double) : Lower (Option ValueId)) s := by
    refine .build (P := fun m o => ∀ v ∈ o, SupportType.double.IsTypeOf m v)
      fun {o m} hrun hlater v hv => ?_
    cases hv
    exact ⟨double, typeOf_of_convert hrun, hlater.types.get_of_isOpaque_eq_false hdouble rfl⟩
  refine .bind (.lift hconvert) hs fun converted s₁ h₁ hs₁ hconverted => ?_
  refine .bind (P := fun s' v => SupportType.double.IsTypeOf s'.module v)
    (yields_ofOption hconverted) hs₁ fun v s₂ h₂ hs₂ hv => ?_
  exact hk v s₂ (h₁.trans h₂) hs₂ hv

/-- Both numbers of a power are of the type that its function takes. -/
theorem callsOut_power {l r : ValueId} (hs : s.Known) : CallsOut .pow (power l r) s := by
  refine .step hs fun ty s₁ h₁ hs₁ => ?_
  refine .bind (P := fun s' double => s'.module.types.get double = .ok (.float 64))
    (.lift (.internType rfl rfl fun _ hdouble => hdouble)) hs₁ fun double s₂ h₂ hs₂ hdouble => ?_
  refine callsOut_of_convert hs₂ hdouble fun base s₃ h₃ hs₃ hbase => ?_
  have hdouble₃ := h₃.module.types.get_of_isOpaque_eq_false hdouble rfl
  refine callsOut_of_convert hs₃ hdouble₃ fun exponent s₄ h₄ hs₄ hexponent => ?_
  have hgiven : SupportFunction.pow.IsGiven s₄.module [base, exponent] :=
    ⟨.cons (hbase.mono h₄.module) (.cons hexponent .nil), fun _ => rfl⟩
  have hcalls : CallsOut .pow (OptionT.lift (callSupport .pow [base, exponent])) s₄ :=
    .lift (callsOut_callSupport hs₄ hgiven)
  exact hcalls.first hs₄ fun _ => inferInstance

/-- What a pointer points to is given back by its address. -/
theorem callsOut_delete {r : Recur} [r.IsStepwise] {operand : Option Node} {span : Span}
    {op : Operand} {s₁ : Lowering} {pointee : TypeId} (hs : s.Known)
    (hop : r.required operand s = .ok (some op, s₁))
    (hty : op.ty s₁.module = .ok (ty, s₁.module))
    (hget : s₁.module.types.get ty = .ok (.pointer pointee)) :
    CallsOut .free (r.delete operand span) s := by
  have hfree {s : Lowering} (hs : s.Known) : CallsOut .free (do
      let pointer ← op.load
      let raw ← Build.cast .bitcast pointer (← bytePointer)
      let _ ← OptionT.lift (callSupport .free [raw])
      return () : Attempt Unit) s := by
    refine .step hs fun pointer s₁ h₁ hs₁ => ?_
    refine .bind (.lift (.build fun hrun _ => isAt_bytePointer hrun)) hs₁
      fun bytes s₂ h₂ hs₂ hat => ?_
    refine .bind (P := fun s' v => SupportType.bytes.IsTypeOf s'.module v)
      (.lift (.build fun hrun hlater => ⟨bytes, (Build.makes_cast .bitcast pointer bytes).run hrun,
        hat.mono hlater.types⟩)) hs₂ fun raw s₃ h₃ hs₃ hraw => ?_
    have hcalls : CallsOut .free (OptionT.lift (callSupport .free [raw])) s₃ :=
      .lift (callsOut_callSupport hs₃ ⟨.cons hraw .nil, fun _ => rfl⟩)
    exact hcalls.first hs₃ fun _ => inferInstance
  refine .of_run hop hs fun h₁ hs₁ => ?_
  have hknown : (liftM op.ty : Attempt TypeId) s₁ = .ok (some ty, s₁) :=
    Attempt.lift_of_ok (build_of_ok hty)
  refine .of_run hknown hs₁ fun _ _ => .step hs₁ fun user s₂ h₂ hs₂ => ?_
  have hget₂ := h₂.module.types.get_of_isOpaque_eq_false hget rfl
  have hread : (liftM (Build.typeAt ty) : Attempt IrType) s₂ = .ok (some (.pointer pointee), s₂) :=
    Attempt.lift_of_ok (build_of_ok (Build.typeAt_of_ok hget₂))
  refine .of_run hread hs₂ fun _ _ => ?_
  have haccepted : ¬ (user.isNone = true ∧ ¬ (IrType.pointer pointee).isPointer = true) :=
    fun h => h.2 rfl
  dsimp only
  rw [if_neg haccepted]
  cases user with
  | none => exact hfree hs₂
  | some index =>
      have : Stepwise (discard (OptionT.lift (callOperator index [op] span).run) :
          Attempt Unit).run := Composed.stepwise (L := Leeway.free.calling index) inferInstance
      exact .step hs₂ fun _ s₃ _ hs₃ => hfree hs₃

/-- An exception is allocated by the size of its value. -/
theorem callsOut_throwOperand {op : Operand} {span : Span} (hs : s.Known) :
    CallsOut .allocateException (throwOperand op span) s := by
  refine .step hs fun ty s₁ h₁ hs₁ => .step hs₁ fun destructor s₂ h₂ hs₂ =>
    .step hs₂ fun value s₃ h₃ hs₃ => ?_
  refine .bind (.lift (gives_support .allocateException hs₃)) hs₃ fun f s₄ h₄ hs₄ hname => ?_
  refine .step hs₄ fun n s₅ h₅ hs₅ => ?_
  refine .bind (.lift (.build fun hrun _ => isTypeOf_constLong hrun)) hs₅
    fun size s₆ h₆ hs₆ hsize => ?_
  have hgiven : SupportFunction.allocateException.IsGiven s₆.module [size] :=
    ⟨.cons hsize .nil, fun _ => rfl⟩
  have hcall := callsOut_emitCall hs₆ ((h₅.trans h₆).module.functionByName? hname) hgiven
  have hcalls : CallsOut .allocateException (OptionT.mk (emitCall f [size])) s₆ :=
    ⟨fun h => ⟨(hcall.run h).1, fun _ _ => (hcall.run h).2⟩⟩
  refine hcalls.first hs₆ fun raw => ?_
  refine .andThen fun _ => .andThen fun _ => .andThen fun _ => .andThen fun _ => .andThen fun _ => ?_
  infer_instance

/-- An exception is thrown with its address, its type and what disposes of it, when the function
that allocates it is the one of the signature. -/
theorem callsOut_throwOperand_throw {op : Operand} {span : Span} {s₁ s₂ : Lowering}
    {destructor value : ValueId} (hs : s.Known) (hty : op.ty s.module = .ok (ty, s.module))
    (hdestructor : throwDestructor ty span s = .ok (some destructor, s₁))
    (hvalue : op.load s₁ = .ok (value, s₂))
    (hallocate : s₂.module.functionByName? SupportFunction.allocateException.symbol = none ∨
      SupportFunction.allocateException.IsDeclared s₂.module) :
    CallsOut .throwException (throwOperand op span) s := by
  refine .of_run (Attempt.lift_of_ok (build_of_ok hty)) hs fun _ _ => ?_
  have hbytes := ((yields_throwDestructor hs).run hdestructor).2 _ rfl
  refine .of_run hdestructor hs fun _ hs₁ => .of_run (Attempt.lift_of_ok hvalue) hs₁ fun h₂ hs₂ => ?_
  refine .bind (.lift (gives_declared hs₂ hallocate)) hs₂ fun f s₃ h₃ hs₃ hf => ?_
  refine .step hs₃ fun n s₄ h₄ hs₄ => .step hs₄ fun size s₅ h₅ hs₅ => ?_
  have hname := (h₄.trans h₅).module.functionByName? hf.1
  have hdeclared := hf.2.mono (h₄.trans h₅).module
  have hraw : Yields (fun s' v => SupportType.bytes.IsTypeOf s'.module v)
      (OptionT.mk (emitCall f [size])) s₅ := by
    refine ⟨fun h => ⟨Stepwise.later (x := emitCall f [size]) hs₅ h, fun v hv => ?_⟩⟩
    cases hv
    exact isTypeOf_of_emitCall hs₅ hname hdeclared h
  refine .bind hraw hs₅ fun raw s₆ h₆ hs₆ hraw => ?_
  refine .step hs₆ fun slotTy s₇ h₇ hs₇ => .step hs₇ fun slot s₈ h₈ hs₈ =>
    .step hs₈ fun _ s₉ h₉ hs₉ => ?_
  refine .bind (.lift (gives_typeDescriptor hs₉)) hs₉ fun descriptor s₁₀ h₁₀ hs₁₀ hdescriptor => ?_
  have hsince := ((h₇.trans h₈).trans h₉).trans h₁₀
  have hall := ((h₂.trans h₃).trans ((h₄.trans h₅).trans h₆)).trans hsince
  have hgiven : SupportFunction.throwException.IsGiven s₁₀.module [raw, descriptor, destructor] :=
    ⟨.cons (hraw.mono hsince.module) (.cons hdescriptor (.cons (hbytes.mono hall.module) .nil)),
      fun _ => rfl⟩
  have hcalls : CallsOut .throwException
      (OptionT.lift (callSupport .throwException [raw, descriptor, destructor])) s₁₀ :=
    .lift (callsOut_callSupport hs₁₀ hgiven)
  exact hcalls.first hs₁₀ fun _ => inferInstance

end Attempt

/-! ### All of them -/

namespace Lower

/-- Support functions are called with values that suit their signatures, wherever lowering calls
them from a state. -/
structure SuitsSupport (s : Lowering) : Prop where
  /-- The signature is the type of the function, unless a function had its name before. -/
  declared : ∀ {g f s'}, s.module.functionByName? g.symbol = none → support g s = .ok (f, s') →
    g.IsDeclared s'.module
  heapAlloc : ∀ ty, CallsOut .calloc (heapAlloc ty) s
  append : ∀ f ty, CallsOut .calloc (DynamicArray.appendBody f ty) s ∧
    CallsOut .free (DynamicArray.appendBody f ty) s
  index : ∀ f, CallsOut .abort (DynamicArray.indexBody f) s
  clear : ∀ f, CallsOut .free (DynamicArray.deleteBody f) s
  power : ∀ l r, Attempt.CallsOut .pow (power l r) s
  print : ∀ format args, CallsOut .printf (emitPrintf format args) s
  /-- What a pointer points to is given back. -/
  delete : ∀ (r : Recur) [r.IsStepwise] operand span op s₁ ty pointee,
    r.required operand s = .ok (some op, s₁) → op.ty s₁.module = .ok (ty, s₁.module) →
      s₁.module.types.get ty = .ok (.pointer pointee) →
        Attempt.CallsOut .free (r.delete operand span) s
  allocate : ∀ op span, Attempt.CallsOut .allocateException (throwOperand op span) s
  /-- What is thrown is what was allocated, so it has the type that the function declares which was
  asked for it. -/
  throw : ∀ {op span ty destructor value s₁ s₂}, op.ty s.module = .ok (ty, s.module) →
    throwDestructor ty span s = .ok (some destructor, s₁) → op.load s₁ = .ok (value, s₂) →
      s₂.module.functionByName? SupportFunction.allocateException.symbol = none ∨
        SupportFunction.allocateException.IsDeclared s₂.module →
          Attempt.CallsOut .throwException (throwOperand op span) s
  /-- Every handler of a `try` claims the exception that arrives. -/
  handlers : ∀ (r : Recur) [r.IsStepwise] body catches span, s.pass.func.isSome →
    Passes (fun s₁ s₂ => ∃ clauses t, r.catchClauses span [] catches s₁ = .ok (clauses, t) ∧
      t.Between (Dispatches r catches clauses) s₂) (r.tryCatch body catches span) s
  release : ∀ endBlock, s.module.currentBlockTerminated = .ok false →
    CallsOut .endCatch (endCatch endBlock) s

theorem suitsSupport (hs : s.Known) : SuitsSupport s where
  declared hnew h := ((gives_declared hs (.inl hnew)).run h).2.2
  heapAlloc _ := callsOut_heapAlloc hs
  append _ _ := callsOut_appendBody hs
  index _ := callsOut_indexBody hs
  clear _ := callsOut_deleteBody hs
  power _ _ := Attempt.callsOut_power hs
  print _ _ := callsOut_emitPrintf hs
  delete _ _ _ _ _ _ _ _ hop hty hget := Attempt.callsOut_delete hs hop hty hget
  allocate _ _ := Attempt.callsOut_throwOperand hs
  throw hty hdestructor hvalue hallocate :=
    Attempt.callsOut_throwOperand_throw hs hty hdestructor hvalue hallocate
  handlers _ _ _ _ _ hfunc := by
    obtain ⟨f, hfunc⟩ := Option.isSome_iff_exists.1 hfunc
    exact passes_tryCatch hs hfunc
  release _ hopen := callsOut_endCatch hs hopen

end Lower

end SsaCompiler
