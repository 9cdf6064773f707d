/-
# Writing a draft line by line

One lemma for each request of code that is put together by hand, saying which line the request
adds to the draft. What is known about types and values when a request is made has been learned
from earlier requests, and it is carried along from module to module as instances.
-/

import SsaCompiler.Proofs.Ir.Listing
import SsaCompiler.Proofs.Ir.Preserved

namespace SsaCompiler

namespace Module

/-! ### What is known about a module -/

/-- A module and one that comes after it. The earlier one is found from the later one. -/
class Before (m : outParam Module) (m' : Module) : Prop where
  evolves : m.Evolves m'

/-- What a type is, when it is no structure without body. -/
class Describes (m : Module) (ty : TypeId) (t : outParam IrType) : Prop where
  get : m.types.get ty = .ok t
  full : t.isOpaque = false

/-- The type of a value. -/
class Typed (m : Module) (v : ValueId) (ty : outParam TypeId) : Prop where
  typeOf : m.typeOf v = .ok ty

/-- A value of a type that is not known before code runs. -/
class Result (m : Module) (v : ValueId) (ty : outParam TypeId) : Prop where
  value : ∃ origin, m.value v = .ok ⟨ty, origin⟩ ∧ origin.isConstant = false

/-- The address of a place for values of a type. -/
class Refers (m : Module) (v : ValueId) (ty : outParam TypeId) : Prop where
  refers : ∃ p, m.Result v p ∧ m.Describes p (.pointer ty)

/-- A constant of a type. -/
class Literal (m : Module) (v : ValueId) (ty : outParam TypeId) (c : outParam Constant) : Prop where
  value : m.value v = .ok ⟨ty, .const c⟩

/-- The parameters of a function. -/
class Receives (m : Module) (f : FunctionId) (params : outParam (List ValueId)) : Prop where
  params : ∃ d, m.function f = .ok d ∧ d.params = params

/-- The block in which a function starts. -/
class StartsAt (m : Module) (f : FunctionId) (b : outParam BlockId) : Prop where
  entry : ∃ d, m.function f = .ok d ∧ d.entry? = some b

section

variable {m m' : Module} {ty : TypeId} {t : IrType} {v : ValueId} {c : Constant} {f : FunctionId}
  {b : BlockId} {params : List ValueId} {code : List Line} {e : Terminator}

instance (priority := low) [h : m.Before m'] [hty : m.Describes ty t] : m'.Describes ty t :=
  ⟨h.evolves.types.get_of_isOpaque_eq_false hty.get hty.full, hty.full⟩

instance (priority := low) [h : m.Before m'] [hv : m.Result v ty] : m'.Result v ty where
  value := by
    obtain ⟨origin, hvalue, hconst⟩ := hv.value
    exact ⟨origin, h.evolves.value hvalue, hconst⟩

instance (priority := low) [h : m.Before m'] [hv : m.Literal v ty c] : m'.Literal v ty c :=
  ⟨h.evolves.value hv.value⟩

instance (priority := low) [h : m.Before m'] [hf : m.Receives f params] : m'.Receives f params where
  params := by
    obtain ⟨d, hd, rfl⟩ := hf.params
    obtain ⟨d', hd', hgrows⟩ := h.evolves.function hd
    exact ⟨d', hd', hgrows.params⟩

instance (priority := low) [h : m.Before m'] [hf : m.StartsAt f b] : m'.StartsAt f b where
  entry := by
    obtain ⟨d, hd, hentry⟩ := hf.entry
    obtain ⟨d', hd', hgrows⟩ := h.evolves.function hd
    obtain ⟨more, hmore⟩ := hgrows.blocks
    refine ⟨d', hd', ?_⟩
    unfold FunctionData.entry? at hentry ⊢
    rw [← hmore, List.head?_append, hentry]
    rfl

instance (priority := low) [h : m.Before m'] [hb : m.HasCode b code e] : m'.HasCode b code e :=
  hb.mono h.evolves

instance [hv : m.Result v ty] : m.Typed v ty where
  typeOf := by
    obtain ⟨origin, hvalue, -⟩ := hv.value
    exact typeOf_of_value hvalue

instance (priority := low) [hv : m.Literal v ty c] : m.Typed v ty := ⟨typeOf_of_value hv.value⟩

instance {p : TypeId} [m.Result v p] [m.Describes p (.pointer ty)] : m.Refers v ty :=
  ⟨p, inferInstance, inferInstance⟩

instance (priority := low) [h : m.Before m'] [hv : m.Refers v ty] : m'.Refers v ty where
  refers := by
    obtain ⟨p, _, _⟩ := hv.refers
    exact ⟨p, inferInstance, inferInstance⟩

/-- There is one type of a description. -/
theorem eq_of_describes {ty' : TypeId} [hty : m.Describes ty t]
    [hty' : m.Describes ty' t] (hname : t.structName? = none) : ty = ty' :=
  m.isUnique _ _ _ hty.get hty'.get hname

/-- Values that are there already. -/
class Older (m : Module) (vs : List ValueId) : Prop where
  lt : ∀ v ∈ vs, v.index < m.values.size

instance : m.Older [] := ⟨fun _ hv => absurd hv List.not_mem_nil⟩

instance {vs : List ValueId} [hv : m.Result v ty] [hvs : m.Older vs] : m.Older (v :: vs) where
  lt w hw := by
    obtain ⟨origin, hvalue, -⟩ := hv.value
    rcases List.mem_cons.1 hw with rfl | hw
    · exact value_lt hvalue
    · exact hvs.lt w hw

instance (priority := low) {vs : List ValueId} [hv : m.Refers v ty] [m.Older vs] :
    m.Older (v :: vs) := by
  obtain ⟨p, _, _⟩ := hv.refers
  infer_instance

/-- A block that has been written behind values that were there already. -/
theorem listing_of_hasCode {M : Module} {high : Nat} {vs : List ValueId} [M.HasCode b code e]
    [hvs : m.Older vs] (horder : Line.Ascends m.values.size code high) : M.Listing b vs code e :=
  ⟨inferInstance, _, _, hvs.lt, horder⟩

/-- What the type of a value is. -/
theorem valueType_of_typed (m : Module) (v : ValueId) (ty : TypeId) [hv : m.Typed v ty]
    [hty : m.Describes ty t] : m.valueType v = .ok t := valueType_of_typeOf hv.typeOf hty.get

end

end Module

/-! ### Requests beside the blocks -/

namespace Module

/-- The blocks of a module and the place of code. -/
def writing (m : Module) : Array BlockData × Option BlockId := (m.blocks, m.position)

instance : Allows (Same writing) .plain where
  edit h := by cases h <;> rfl

instance : Allows (Same writing) .declaration where
  edit h := by
    cases h
    rfl

end Module

/-- A request that leaves the blocks and the place of code alone. -/
abbrev Build.Aside {α : Type} (x : Build α) : Prop := Build.Preserves Module.writing x

theorem Build.Aside.same {α : Type} {x : Build α} [hx : Build.Aside x] {m m' : Module} {a : α}
    (h : x m = .ok (a, m')) : m'.blocks = m.blocks ∧ m'.position = m.position :=
  Prod.mk.inj (hx.run h)

/-! ### Requests that add nothing to a draft -/

namespace Build

open SsaCompiler.Module

variable {m m' : Module} {ty : TypeId} {t : IrType} {v : ValueId}

/-- The type of a value that is known. -/
theorem typeOf_of_typed [hv : m.Typed v ty] : typeOf v m = .ok (ty, m) := ask_of_ok hv.typeOf

/-- A type that is asked for is there, and it is no structure. -/
theorem describes_of_internType (ht : t.description? = some t) (hparts : t.parts = [])
    (hfull : t.isOpaque = false) (hrun : internType t ht m = .ok (ty, m')) :
    m.Before m' ∧ m'.Describes ty t := by
  have := moves_internType (R := Module.Progresses) ht hparts
  refine ⟨⟨evolves hrun⟩, ⟨?_, hfull⟩⟩
  cases hrun
  exact Module.get_intern _ _

/-- An integer constant of full width. -/
theorem literal_of_constInt {i : Int64} [hty : m.Describes ty (.int 64)]
    (hrun : constInt ty i m = .ok (v, m')) : m.Before m' ∧ m'.Literal v ty (.int i) := by
  refine ⟨⟨evolves hrun⟩, ⟨?_⟩⟩
  rw [constInt_run hty.get] at hrun
  cases hrun
  have hnormal : normalizeInt i 64 = i := by simp [normalizeInt]
  rw [hnormal]
  exact value_withValue_nextValue m ty _

theorem literal_of_constNull (hrun : constNull ty m = .ok (v, m')) :
    m.Before m' ∧ m'.Literal v ty .null := by
  refine ⟨⟨evolves hrun⟩, ⟨?_⟩⟩
  cases hrun
  exact value_withValue_nextValue m ty _

/-- What is not known before code runs is no integer constant. -/
theorem intConst?_of_result {c : Option (Int64 × Nat)} [hv : m.Result v ty]
    (hrun : intConst? v m = .ok (c, m')) : c = none ∧ m' = m := by
  obtain ⟨origin, hvalue, hconst⟩ := hv.value
  unfold intConst? at hrun
  rw [bind_of_ok (ask_of_ok hvalue)] at hrun
  obtain ⟨t, m₁, ht, hend⟩ := bind_eq_ok_iff.1 hrun
  obtain ⟨-, rfl⟩ := ask_eq_ok_iff.1 ht
  cases origin with
  | const c => cases hconst
  | _ => cases hend; exact ⟨rfl, rfl⟩

/-- An integer constant is looked for without changing anything. -/
theorem eq_of_intConst? {c : Option (Int64 × Nat)} (hrun : intConst? v m = .ok (c, m')) :
    m' = m := by
  obtain ⟨d, m₁, hd, hrest⟩ := bind_eq_ok_iff.1 hrun
  obtain ⟨-, rfl⟩ := ask_eq_ok_iff.1 hd
  obtain ⟨t, m₂, ht, hend⟩ := bind_eq_ok_iff.1 hrest
  obtain ⟨-, rfl⟩ := ask_eq_ok_iff.1 ht
  obtain ⟨ty, origin⟩ := d
  cases origin with
  | const c => cases c <;> cases t <;> cases hend <;> rfl
  | _ => cases hend; rfl

/-- An operation with something unknown on its left is not carried out at once. -/
theorem foldBinary_of_result {op : BinOp} {lhs rhs : ValueId} {o : Option ValueId}
    (hop : op.isFloat = false) [hl : m.Result lhs ty]
    (hrun : foldBinary op lhs rhs m = .ok (o, m')) : o = none ∧ m' = m := by
  unfold foldBinary at hrun
  rw [bind_of_ok (typeOf_of_typed (v := lhs)), hop] at hrun
  simp only [Bool.false_eq_true, ↓reduceIte] at hrun
  obtain ⟨a, m₁, ha, hrest⟩ := bind_eq_ok_iff.1 hrun
  obtain ⟨rfl, rfl⟩ := intConst?_of_result ha
  obtain ⟨c, m₂, hc, hend⟩ := bind_eq_ok_iff.1 hrest
  obtain rfl := eq_of_intConst? hc
  cases hend
  exact ⟨rfl, rfl⟩

/-- A comparison with something unknown on its left is not carried out at once. -/
theorem foldICmp_of_result {pred : IntPredicate} {lhs rhs : ValueId} {o : Option ValueId}
    [hl : m.Result lhs ty] (hrun : foldICmp pred lhs rhs m = .ok (o, m')) : o = none ∧ m' = m := by
  obtain ⟨origin, hvalue, hconst⟩ := hl.value
  have hnull : isNullConst lhs m = .ok (false, m) := by
    rw [isNullConst_run hvalue]
    cases origin with
    | const c => cases hconst
    | _ => rfl
  obtain ⟨a, m₁, ha, hright⟩ := bind_eq_ok_iff.1 hrun
  obtain ⟨rfl, rfl⟩ := intConst?_of_result ha
  obtain ⟨c, m₂, hc, hrest⟩ := bind_eq_ok_iff.1 hright
  obtain rfl := eq_of_intConst? hc
  dsimp only at hrest
  rw [bind_of_ok hnull] at hrest
  obtain ⟨n, m₃, hn, hend⟩ := bind_eq_ok_iff.1 hrest
  obtain ⟨d, m₄, hd, hanswer⟩ := bind_eq_ok_iff.1 hn
  obtain ⟨-, rfl⟩ := ask_eq_ok_iff.1 hd
  cases hanswer
  cases hend
  exact ⟨rfl, rfl⟩

/-- A conversion of the address of something unknown is not carried out at once. -/
theorem foldCast_of_result {dest : TypeId} {o : Option ValueId} [hv : m.Result v ty]
    (hrun : foldCast .bitcast v dest m = .ok (o, m')) : o = none ∧ m' = m := by
  obtain ⟨origin, hvalue, hconst⟩ := hv.value
  obtain ⟨t, m₁, ht, hrest⟩ := bind_eq_ok_iff.1 hrun
  obtain ⟨-, rfl⟩ := ask_eq_ok_iff.1 ht
  dsimp only at hrest
  rw [bind_of_ok (ask_of_ok hvalue)] at hrest
  cases origin with
  | const c => cases hconst
  | global i => cases hconst
  | function f => cases hconst
  | _ => cases hrest; exact ⟨rfl, rfl⟩

/-- A type that is there already is the one that is asked for. -/
theorem eq_of_internType (ty : TypeId) {ty' : TypeId} [hty : m.Describes ty t]
    (ht : t.description? = some t) (hparts : t.parts = [])
    (hrun : internType t ht m = .ok (ty', m')) : ty = ty' ∧ m.Before m' := by
  obtain ⟨hbefore, hty'⟩ := describes_of_internType ht hparts hty.full hrun
  exact ⟨eq_of_describes (m := m') (IrType.description?_eq_self_iff.1 ht), hbefore⟩

end Build

/-! ### Requests that add a line -/

namespace Module.Draft

variable {m m' : Module} {low : Nat} {b : BlockId} {code : List Line} {rest : List BlockId}
  {v lhs rhs ptr : ValueId} {ty p : TypeId} {o : Operation}

/-- What happens beside the blocks does not matter. -/
theorem aside {α : Type} {x : Build α} {a : α} [Stepwise x] [hx : Build.Aside x]
    (h : m.Draft low b code rest) (hrun : x m = .ok (a, m')) : m'.Draft low b code rest := by
  obtain ⟨hblocks, hposition⟩ := Build.Aside.same hrun
  exact h.of_blocks_eq (Build.evolves hrun) hblocks hposition

/-- A request for an instruction adds a line for it. -/
structure Adds (m m' : Module) (low : Nat) (b : BlockId) (code : List Line) (rest : List BlockId)
    (v : ValueId) (ty : TypeId) (o : Operation) : Prop where
  draft : m'.Draft low b (code ++ [⟨v, o⟩]) rest
  before : m.Before m'
  result : m'.Result v ty

theorem adds_pushInstr {i : Instr} (h : m.Draft low b code rest)
    (hrun : Build.pushInstr ty i m = .ok (v, m'))
    (ho : m.Before m' → m'.value v = .ok ⟨ty, .instr i⟩ → m'.Computes v o) :
    Adds m m' low b code rest v ty o := by
  have hvalue := Build.value_of_pushInstr hrun
  have hbefore : m.Before m' := ⟨Build.evolves_pushInstr hrun⟩
  exact ⟨h.pushInstr hrun (ho hbefore hvalue), hbefore, ⟨_, hvalue, rfl⟩⟩

/-- An instruction behind the request for its type. -/
theorem adds_of_internType {t : IrType} {i : Instr} (ht : t.description? = some t)
    (hparts : t.parts = []) (hfull : t.isOpaque = false) (h : m.Draft low b code rest)
    (hrun : (Build.internType t ht >>= fun ty => Build.pushInstr ty i) m = .ok (v, m'))
    (ho : ∀ ty, m.Before m' → m'.value v = .ok ⟨ty, .instr i⟩ → m'.Computes v o) :
    ∃ ty, Adds m m' low b code rest v ty o ∧ m'.Describes ty t := by
  have := Build.moves_internType (R := Module.Progresses) ht hparts
  have := Build.moves_internType (R := Module.Same Module.writing) ht hparts
  obtain ⟨ty, m₁, hty, hpush⟩ := bind_eq_ok_iff.1 hrun
  obtain ⟨hbefore, _⟩ := Build.describes_of_internType ht hparts hfull hty
  have hadds := (h.aside hty).adds_pushInstr hpush fun hlater =>
    ho ty ⟨hbefore.evolves.trans hlater.evolves⟩
  have := hadds.before
  exact ⟨ty, ⟨hadds.draft, ⟨hbefore.evolves.trans hadds.before.evolves⟩, hadds.result⟩,
    inferInstance⟩

theorem alloca (h : m.Draft low b code rest) (hrun : Build.alloca ty m = .ok (v, m')) :
    ∃ p, Adds m m' low b code rest v p (.alloca ty) ∧ m'.Describes p (.pointer ty) :=
  h.adds_of_internType rfl rfl rfl hrun fun _ _ => .alloca

theorem pointeeOf_run (ptr : ValueId) (ty : TypeId) [hptr : m.Refers ptr ty] :
    Build.pointeeOf ptr m = .ok (some ty, m) := by
  obtain ⟨p, _, hp⟩ := hptr.refers
  unfold Build.pointeeOf
  rw [bind_of_ok Build.typeOf_of_typed, bind_of_ok (Build.typeAt_of_ok hp.get)]
  rfl

theorem valueType_of_refers [hptr : m.Refers ptr ty] : m.valueType ptr = .ok (.pointer ty) := by
  obtain ⟨p, _, _⟩ := hptr.refers
  exact m.valueType_of_typed ptr p

theorem load [m.Refers ptr ty] (h : m.Draft low b code rest)
    (hrun : Build.load ptr m = .ok (v, m')) : Adds m m' low b code rest v ty (.load ptr ty) := by
  unfold Build.load at hrun
  rw [bind_of_ok (pointeeOf_run ptr ty)] at hrun
  exact h.adds_pushInstr hrun fun _ => .load

theorem store [hv : m.Typed v ty] [m.Refers ptr ty] (h : m.Draft low b code rest)
    (hrun : Build.store v ptr m = .ok ((), m')) :
    ∃ id void, Adds m m' low b code rest id void (.store v ptr ty) := by
  unfold Build.store at hrun
  rw [bind_of_ok (pointeeOf_run ptr ty)] at hrun
  dsimp only at hrun
  rw [bind_of_ok (Build.typeOf_of_typed (v := v))] at hrun
  simp only [↓reduceIte] at hrun
  obtain ⟨void, m₁, hvoid, hrest⟩ := bind_eq_ok_iff.1 hrun
  obtain ⟨id, m₂, hpush, hend⟩ := bind_eq_ok_iff.1 hrest
  cases hend
  obtain ⟨void, hadds, -⟩ := h.adds_of_internType (t := .void) (o := .store v ptr ty) rfl rfl rfl
    (bind_eq_ok_iff.2 ⟨void, m₁, hvoid, hpush⟩)
    fun _ hlater hvalue => .store hvalue (hlater.evolves.typeOf hv.typeOf)
  exact ⟨id, void, hadds⟩

theorem structGep {s field : TypeId} {kind : IrType} {fields : List TypeId} {index : Nat}
    [m.Refers ptr s] [hs : m.Describes s kind] (hfields : kind.fields? = some fields)
    (hfield : fields[index]? = some field) (h : m.Draft low b code rest)
    (hrun : Build.structGep ptr index m = .ok (v, m')) :
    ∃ q, Adds m m' low b code rest v q (.field ptr s index) ∧ m'.Describes q (.pointer field) := by
  have hptr : m.valueType ptr = .ok (.pointer s) := valueType_of_refers
  unfold Build.structGep at hrun
  rw [bind_of_ok (pointeeOf_run ptr s)] at hrun
  dsimp only at hrun
  rw [bind_of_ok (Build.typeAt_of_ok hs.get), hfields] at hrun
  dsimp only at hrun
  rw [bind_of_ok (pure_apply _ m), hfield] at hrun
  exact h.adds_of_internType (t := .pointer field) rfl rfl rfl hrun fun _ hlater hvalue =>
    .field hvalue (hlater.evolves.valueType_pointer hptr)

theorem gep [hptr : m.Typed ptr p] [hp : m.Describes p (.pointer ty)]
    (h : m.Draft low b code rest) (hrun : Build.gep ptr rhs m = .ok (v, m')) :
    Adds m m' low b code rest v p (.element ptr rhs ty) := by
  have hptr' := m.valueType_of_typed ptr p
  unfold Build.gep at hrun
  rw [bind_of_ok (Build.typeOf_of_typed (v := ptr)), bind_of_ok (Build.typeAt_of_ok hp.get)] at hrun
  exact h.adds_pushInstr hrun fun hlater hvalue =>
    .element hvalue (hlater.evolves.valueType_pointer hptr')

theorem binary {op : BinOp} {bits : Nat} (hop : op.isFloat = false) [hl : m.Result lhs ty]
    [hr : m.Typed rhs ty] [hty : m.Describes ty (.int bits)] (h : m.Draft low b code rest)
    (hrun : Build.binary op lhs rhs m = .ok (v, m')) :
    Adds m m' low b code rest v ty (.binary op lhs rhs bits) := by
  obtain ⟨o, m₁, hfold, hrest⟩ := bind_eq_ok_iff.1 hrun
  obtain ⟨rfl, rfl⟩ := Build.foldBinary_of_result hop hfold
  dsimp only at hrest
  rw [bind_of_ok (Build.typeOf_of_typed (v := lhs)), bind_of_ok (Build.typeOf_of_typed (v := rhs))]
    at hrest
  simp only [ne_eq, not_true_eq_false, ↓reduceIte] at hrest
  refine h.adds_pushInstr hrest fun hlater hvalue => .binary hvalue ?_
  exact Module.valueType_of_typeOf (hlater.evolves.typeOf (Typed.typeOf (v := lhs)))
    (hlater.evolves.types.get_of_isOpaque_eq_false hty.get rfl)

theorem icmp {pred : IntPredicate} [m.Result lhs ty] (h : m.Draft low b code rest)
    (hrun : Build.icmp pred lhs rhs m = .ok (v, m')) :
    ∃ bool, Adds m m' low b code rest v bool (.icmp pred lhs rhs) ∧
      m'.Describes bool (.int 1) := by
  obtain ⟨o, m₁, hfold, hrest⟩ := bind_eq_ok_iff.1 hrun
  obtain ⟨rfl, rfl⟩ := Build.foldICmp_of_result hfold
  exact h.adds_of_internType (t := .int 1) rfl rfl rfl hrest fun _ _ => .icmp

/-- A conversion of an address adds a line only when it changes the type. -/
def Converts (extra : List Line) (v w : ValueId) : Prop :=
  extra = [] ∧ w = v ∨ extra = [⟨w, .recast v⟩]

theorem bitcast {w : ValueId} {dest target : TypeId} {source : IrType} [hv : m.Result v ty]
    [hdest : m.Describes dest (.pointer target)] (hsource : m.types.get ty = .ok source)
    (h : m.Draft low b code rest) (hrun : Build.cast .bitcast v dest m = .ok (w, m')) :
    ∃ extra, Converts extra v w ∧ m'.Draft low b (code ++ extra) rest ∧ m.Before m' ∧
      m'.Result w dest := by
  unfold Build.cast at hrun
  rw [bind_of_ok (Build.typeOf_of_typed (v := v))] at hrun
  split at hrun
  · rename_i heq
    cases hrun
    exact ⟨[], .inl ⟨rfl, rfl⟩, by simpa using h, ⟨.refl _⟩, heq ▸ hv⟩
  · obtain ⟨o, m₁, hfold, hrest⟩ := bind_eq_ok_iff.1 hrun
    obtain ⟨rfl, rfl⟩ := Build.foldCast_of_result hfold
    have hadds := h.adds_pushInstr hrest (o := .recast v) fun hlater hvalue => by
      obtain ⟨source', hsource', -⟩ := hlater.evolves.types.get_of_ok hsource
      exact .recast hvalue (hlater.evolves.types.get_of_isOpaque_eq_false hdest.get rfl)
        (Module.valueType_of_typeOf (hlater.evolves.typeOf (Typed.typeOf (v := v))) hsource')
    exact ⟨_, .inr rfl, hadds.draft, hadds.before, hadds.result⟩

/-- The type of what a call answers with is the one that the function declares. -/
theorem callResultType_cases {f : FunctionId} {args : List ValueId} {ret : TypeId}
    (hrun : Build.callResultType f args m = .ok (ret, m')) :
    ∃ d t, m.function f = .ok d ∧ m.types.get d.ty = .ok t ∧
      ∀ params result variadic, t = .function params result variadic → result = ret := by
  obtain ⟨d, m₁, hd, htype⟩ := bind_eq_ok_iff.1 hrun
  obtain ⟨hd, rfl⟩ := Build.ask_eq_ok_iff.1 hd
  obtain ⟨t, m₂, ht, hrest⟩ := bind_eq_ok_iff.1 htype
  obtain ⟨ht, rfl⟩ := Build.ask_eq_ok_iff.1 ht
  refine ⟨d, t, hd, ht, ?_⟩
  rintro params result variadic rfl
  have hsig : (IrType.function params result variadic).signature? = some ⟨params, result, variadic⟩ :=
    rfl
  rw [hsig] at hrest
  dsimp only at hrest
  cases variadic <;> simp only [Bool.false_eq_true, ↓reduceIte] at hrest <;>
    split at hrest <;> cases hrest <;> rfl

/-- A call. It has no value only if the function answers with nothing. -/
theorem call {f : FunctionId} {args : List ValueId} {answer : Option ValueId}
    (h : m.Draft low b code rest) (hrun : Build.call f args m = .ok (answer, m')) :
    ∃ id ret d t, Adds m m' low b code rest id ret (.call f args) ∧ m.function f = .ok d ∧
      m'.types.get ret = .ok t ∧ (answer = some id ∨ ∀ {M : Module}, m'.Evolves M →
        ∀ params result variadic, M.types.get d.ty = .ok (.function params result variadic) →
          M.types.get result = .ok .void) := by
  obtain ⟨ret, m₁, hret, hrest⟩ := bind_eq_ok_iff.1 hrun
  obtain ⟨d, td, hd, htd, hresult⟩ := callResultType_cases hret
  obtain ⟨id, m₂, hpush, hrest'⟩ := bind_eq_ok_iff.1 hrest
  have hadds := (h.aside hret).adds_pushInstr hpush fun _ => .call
  have hbefore : m.Evolves m₂ := (Build.evolves hret).trans hadds.before.evolves
  obtain ⟨t, m₃, ht, hend⟩ := bind_eq_ok_iff.1 hrest'
  obtain ⟨ht', hsame⟩ := Build.ask_eq_ok_iff.1 ht
  cases hsame
  have hcall : Adds m m₂ low b code rest id ret (.call f args) :=
    ⟨hadds.draft, ⟨hbefore⟩, hadds.result⟩
  split at hend
  · rename_i hvoid
    cases hend
    refine ⟨id, ret, d, t, hcall, hd, ht', .inr fun {M} hM params result variadic hfun => ?_⟩
    obtain ⟨td', htd', hbecomes⟩ := (hbefore.trans hM).types.get_of_ok htd
    cases htd'.symm.trans hfun
    rcases hbecomes with heq | ⟨_, _, -, hnamed⟩
    · rw [hresult params result variadic heq.symm]
      exact hM.types.get_of_isOpaque_eq_false (hvoid ▸ ht') rfl
    · cases hnamed
  · cases hend
    exact ⟨id, ret, d, t, hcall, hd, ht', .inl rfl⟩

/-- A choice by the block from which control came. -/
theorem phi {incoming : List (ValueId × BlockId)} (h : m.Draft low b code rest)
    (hrun : Build.phi ty incoming m = .ok (v, m')) : Adds m m' low b code rest v ty (.phi incoming) :=
  h.adds_pushInstr hrun fun _ => .phi

/-- The end of a block makes it a listing. -/
structure Finishes (m m' : Module) (low : Nat) (b : BlockId) (code : List Line)
    (rest : List BlockId) (t : Terminator) : Prop where
  listing : m'.HasCode b code t
  before : m.Before m'
  ascends : Line.Ascends low code m'.values.size
  blanks : m'.Blanks rest

theorem finish {t : Terminator} (h : m.Draft low b code rest)
    (hrun : Build.setTerminator t m = .ok ((), m')) : Finishes m m' low b code rest t := by
  obtain ⟨hcode, hascends, hblanks⟩ := h.setTerminator hrun
  exact ⟨hcode, ⟨Build.evolves_setTerminator hrun⟩, hascends, hblanks⟩

/-- A branch on a truth value ends the block. -/
theorem condBr {thenTo elseTo : BlockId} [hv : m.Typed v ty] [hty : m.Describes ty (.int 1)]
    (h : m.Draft low b code rest) (hrun : Build.condBr v thenTo elseTo m = .ok ((), m')) :
    Finishes m m' low b code rest (.condBr v thenTo elseTo) := by
  unfold Build.condBr at hrun
  rw [bind_of_ok (Build.typeOf_of_typed (v := v)), bind_of_ok (Build.typeAt_of_ok hty.get),
    if_pos rfl] at hrun
  exact h.finish hrun

end Module.Draft

/-! ### Blocks and parameters -/

namespace Module

variable {m m' : Module} {f : FunctionId} {b : BlockId} {v : ValueId} {rest : List BlockId}

/-- A further block of a function is blank. -/
theorem Blanks.appendBlock {name : String} (h : m.Blanks rest)
    (hrun : Build.appendBlock f name m = .ok (b, m')) : m'.Blanks (rest ++ [b]) ∧ m.Before m' := by
  have hlater : m.Evolves m' := Build.evolves hrun
  obtain ⟨d, m₁, hd, hend⟩ := bind_eq_ok_iff.1 hrun
  obtain ⟨-, rfl⟩ := Build.ask_eq_ok_iff.1 hd
  cases hend
  exact ⟨h.withBlock f name, ⟨hlater⟩⟩

/-- The first block of a function is the one in which it starts. -/
theorem startsAt_of_appendBlock {name : String} {d : FunctionData} (hf : m.function f = .ok d)
    (hblocks : d.blocks = []) (hrun : Build.appendBlock f name m = .ok (b, m')) :
    m'.StartsAt f b where
  entry := by
    obtain ⟨d', m₁, hd', hend⟩ := bind_eq_ok_iff.1 hrun
    obtain ⟨-, rfl⟩ := Build.ask_eq_ok_iff.1 hd'
    cases hend
    have hget := Checked.at_eq_ok_iff.1 hf
    refine ⟨{ d with blocks := d.blocks ++ [⟨m₁.blocks.size⟩] }, Checked.at_eq_ok_iff.2 ?_, ?_⟩
    · change (m₁.functions.modify f.index _)[f.index]? = _
      rw [Array.getElem?_modify, if_pos rfl, hget]
      rfl
    · rw [FunctionData.entry?, hblocks]
      rfl

/-- Code goes on in the next blank block. -/
theorem Blanks.take (h : m.Blanks (b :: rest)) (hrun : Build.positionAtEnd b m = .ok ((), m')) :
    m'.Draft m.values.size b [] rest ∧ m.Before m' ∧ m'.values.size = m.values.size := by
  have hlater : m.Evolves m' := Build.evolves hrun
  cases hrun
  exact ⟨h.positionAtEnd, ⟨hlater⟩, rfl⟩

theorem eq_of_param {i : Nat} {params : List ValueId} {p : ValueId} [hf : m.Receives f params]
    (hp : params[i]? = some p) (hrun : Build.param f i m = .ok (v, m')) :
    p = v ∧ m = m' := by
  obtain ⟨d, hd, rfl⟩ := hf.params
  unfold Build.param at hrun
  rw [bind_of_ok (Build.ask_of_ok hd), hp] at hrun
  cases hrun
  exact ⟨rfl, rfl⟩

end Module

end SsaCompiler
