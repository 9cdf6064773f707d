/-
# The types of what requests answer with

A request for a constant, an instruction or a conversion answers with a value, and the request
tells which type the value has. This is so wherever the instruction goes, even when it is set
aside.
-/

import SsaCompiler.Proofs.Ir.Folding
import SsaCompiler.Proofs.Ir.Session

namespace SsaCompiler

namespace Build

variable {α β : Type} {m m' : Module} {v : ValueId} {ty : TypeId}

/-- Whatever a request answers with has a property in the module that it leaves behind. -/
structure Ensures (P : Module → α → Prop) (x : Build α) : Prop where
  run : ∀ {m a m'}, x m = .ok (a, m') → P m' a

namespace Ensures

variable {P : Module → α → Prop} {Q : Module → β → Prop} {x : Build α} {f : α → Build β}

/-- The last of some requests answers. -/
theorem last (h : ∀ a, Ensures Q (f a)) : Ensures Q (x >>= f) where
  run hrun := by
    obtain ⟨a, m₁, -, hrest⟩ := bind_eq_ok_iff.1 hrun
    exact (h a).run hrest

/-- No answer, when only answers are spoken of. -/
theorem none {P : Module → α → Prop} :
    Ensures (fun m o => ∀ a ∈ o, P m a) (Pure.pure none : Build (Option α)) where
  run hrun := by
    cases hrun
    exact fun a ha => by cases ha

theorem some {P : Module → α → Prop} (hx : Ensures P x) :
    Ensures (fun m o => ∀ a ∈ o, P m a) (x >>= fun a => Pure.pure (Option.some a)) := by
  refine ⟨fun hrun b hb => ?_⟩
  obtain ⟨a, m₁, hx', hend⟩ := bind_eq_ok_iff.1 hrun
  cases hend
  cases hb
  exact hx.run hx'

/-- A folded answer, or the one of a further request. -/
theorem orElse {P : Module → α → Prop} {x : Build (Option α)} {f : Option α → Build α}
    (hx : Ensures (fun m o => ∀ a ∈ o, P m a) x) (hfound : ∀ a, f (Option.some a) = Pure.pure a)
    (hnone : Ensures P (f Option.none)) : Ensures P (x >>= f) where
  run hrun := by
    obtain ⟨o, m₁, hx', hrest⟩ := bind_eq_ok_iff.1 hrun
    rcases o with _ | a
    · exact hnone.run hrest
    · rw [hfound] at hrest
      cases hrest
      exact hx.run hx' _ rfl

end Ensures

/-- A request makes a value of a type. -/
abbrev Makes (ty : TypeId) (x : Build ValueId) : Prop := Ensures (fun m v => m.typeOf v = .ok ty) x

/-- A request makes a value whose type is described. -/
abbrev MakesA (t : IrType) (x : Build ValueId) : Prop :=
  Ensures (fun m v => m.valueType v = .ok t) x

/-! ### Values -/

theorem makes_pushValue (ty : TypeId) (origin : ValueDef) : Makes ty (pushValue ty origin) where
  run h := by
    cases h
    exact Module.typeOf_of_value (Module.value_withValue_nextValue _ ty origin)

theorem makes_pushInstr (ty : TypeId) (i : Instr) : Makes ty (pushInstr ty i) where
  run h := Module.typeOf_of_value (value_of_pushInstr h)

theorem makes_constInt (ty : TypeId) (value : Int64) : Makes ty (constInt ty value) := by
  unfold constInt
  refine .last fun t => ?_
  split
  · exact makes_pushValue ty _
  · exact .last fun _ => makes_pushValue ty _

theorem makes_constFloat (ty : TypeId) (value : Double) : Makes ty (constFloat ty value) := by
  unfold constFloat
  refine .last fun t => ?_
  split <;> exact makes_pushValue ty _

theorem makes_constZero (ty : TypeId) : Makes ty (constZero ty) := by
  unfold constZero
  refine .last fun t => ?_
  split <;> exact makes_pushValue ty _

/-- A value of a type that has just been asked for. -/
theorem makesA_of_internType {t : IrType} {ht : t.description? = some t}
    {f : TypeId → Build ValueId} [∀ ty, Stepwise (f ty)] (hfull : t.isOpaque = false)
    (hf : ∀ ty, Makes ty (f ty)) : MakesA t (internType t ht >>= f) where
  run hrun := by
    obtain ⟨ty, m₁, hty, hrest⟩ := bind_eq_ok_iff.1 hrun
    cases hty
    refine Module.valueType_of_typeOf ((hf _).run hrest) ?_
    exact (Build.evolves hrest).types.get_of_isOpaque_eq_false (Module.get_intern _ _) hfull

theorem makesA_truth (b : Bool) :
    MakesA (.int 1) (do constInt (← intType 1) (truthWord b)) :=
  makesA_of_internType rfl fun ty => makes_constInt ty _

/-! ### Instructions -/

theorem makesA_alloca (ty : TypeId) : MakesA (.pointer ty) (alloca ty) := by
  have (ptr : TypeId) : Moves Module.Progresses (pushInstr ptr (.alloca ty)) :=
    moves_pushInstr .slot ptr rfl fun _ => trivial
  exact makesA_of_internType rfl fun ptr => makes_pushInstr ptr _

/-- What is loaded has the type to which the address points. -/
theorem typeOf_of_load {ptr : ValueId} (hptr : m.valueType ptr = .ok (.pointer ty))
    (h : load ptr m = .ok (v, m')) : m'.typeOf v = .ok ty := by
  obtain ⟨id, hid, hget⟩ := Module.exists_typeOf_of_valueType hptr
  have hpointee : pointeeOf ptr m = .ok (some ty, m) := by
    have htype : typeOf ptr m = .ok (id, m) := ask_of_ok hid
    unfold pointeeOf
    rw [bind_of_ok htype, bind_of_ok (typeAt_of_ok hget)]
    rfl
  unfold load at h
  rw [bind_of_ok hpointee] at h
  exact (makes_pushInstr ty _).run h

theorem makesA_icmp (pred : IntPredicate) (l r : ValueId) : MakesA (.int 1) (icmp pred l r) := by
  unfold icmp
  have (ty : TypeId) : Moves Module.Progresses (pushInstr ty (.icmp pred l r)) :=
    moves_pushInstr .flat ty rfl fun _ => trivial
  have hword : MakesA (.int 1) (do pushInstr (← intType 1) (.icmp pred l r)) :=
    makesA_of_internType rfl fun ty => makes_pushInstr ty _
  refine .orElse ?_ (fun _ => rfl) hword
  unfold foldICmp
  refine .last fun a => .last fun b => ?_
  have htruth (t : Bool) := (makesA_truth t).some
  simp only [bind_assoc] at htruth
  split
  · exact htruth _
  · refine .last fun lnull => .last fun rnull => ?_
    split
    · exact htruth _
    · exact .none

theorem makesA_fcmp (pred : FloatPredicate) (l r : ValueId) : MakesA (.int 1) (fcmp pred l r) := by
  unfold fcmp
  have (ty : TypeId) : Moves Module.Progresses (pushInstr ty (.fcmp pred l r)) :=
    moves_pushInstr .flat ty rfl fun _ => trivial
  have hword : MakesA (.int 1) (do pushInstr (← intType 1) (.fcmp pred l r)) :=
    makesA_of_internType rfl fun ty => makes_pushInstr ty _
  refine .orElse ?_ (fun _ => rfl) hword
  unfold foldFCmp
  refine .last fun a => ?_
  have htruth (t : Bool) := (makesA_truth t).some
  simp only [bind_assoc] at htruth
  split
  · exact .none
  · refine .last fun b => ?_
    split
    · exact .none
    · exact htruth _

/-! ### Conversions -/

/-- A folded conversion has the type that was asked for. -/
theorem makes_foldCast (op : CastOp) (value : ValueId) (dest : TypeId) :
    Ensures (fun m o => ∀ v ∈ o, m.typeOf v = .ok dest) (foldCast op value dest) := by
  have hint (i : Int64) := (makes_constInt dest i).some
  have hfloat (x : Double) := (makes_constFloat dest x).some
  have hpush (origin : ValueDef) := (makes_pushValue dest origin).some
  unfold foldCast
  refine .last fun target => ?_
  cases op with
  | trunc | sext =>
      refine .last fun word => ?_
      split
      · exact hint _
      · exact .none
  | zext =>
      refine .last fun word => ?_
      split
      · exact .last fun wide => hint wide
      · exact .none
  | fptrunc | fpext =>
      refine .last fun number => ?_
      split
      · exact hfloat _
      · exact .none
  | fptosi =>
      refine .last fun number => ?_
      split
      · exact hint _
      · exact .none
  | sitofp =>
      refine .last fun word => ?_
      split
      · exact hfloat _
      · exact .none
  | ptrtoint =>
      refine .last fun isNull => ?_
      split
      · exact hint 0
      · exact .none
  | inttoptr =>
      refine .last fun word => ?_
      split
      · split
        · exact hpush _
        · exact .none
      · exact .none
  | bitcast =>
      refine .last fun data => ?_
      split
      · exact hpush _
      · exact hpush _
      · exact hpush _
      · exact .none

/-- A conversion has the type that was asked for. -/
theorem makes_cast (op : CastOp) (value : ValueId) (dest : TypeId) :
    Makes dest (cast op value dest) where
  run {m v m'} h := by
    obtain ⟨ty, m₁, htype, hrest⟩ := bind_eq_ok_iff.1 h
    obtain ⟨hty, rfl⟩ := ask_eq_ok_iff.1 htype
    split at hrest
    · rename_i heq
      cases hrest
      exact heq ▸ hty
    · exact ((makes_foldCast op value dest).orElse (fun _ => rfl) (makes_pushInstr dest _)).run hrest

end Build

end SsaCompiler
