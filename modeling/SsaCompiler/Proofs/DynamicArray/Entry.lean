/-
# How an array type gets its operators

The type of an array is declared before it has parts. When it gets them, its operators are declared
as well, each with a function of its own, and their code is written. An operator that is declared is
found under its key from then on, also when others are declared behind it, and its function has its
code in every later module.

What has to be ruled out is that the function is there already: writing code declares no functions
but those of the runtime, and none of these is called like an operator.
-/

import SsaCompiler.Proofs.DynamicArray.Operators
import SsaCompiler.Proofs.Lower.Argument

namespace SsaCompiler

open Lower SsaCompiler.Module

-- The code of an operator consists of a good many steps.
set_option synthInstance.maxSize 1024

/-! ### Names of functions -/

namespace Build

variable {m m' : Module} {name other : String} {ty : TypeId} {f : FunctionId}

/-- A declaration takes one name only. -/
theorem functionByName?_of_declareFunction_ne (h : declareFunction name ty m = .ok (f, m'))
    (hne : other ≠ name) (hfree : m.functionByName? other = none) :
    m'.functionByName? other = none := by
  rcases declareFunction_eq_ok h with ⟨-, rfl⟩ | ⟨-, -, _, params, m₁, -, hparams, hnew, rfl⟩
  · exact hfree
  · rw [Module.functionByName?_withFunction, if_neg hne, functionByName?_of_pushParams hparams,
      hfree]

/-- The parameters of a new function are values. -/
theorem value_of_pushParams {i k : Nat} {tys : List TypeId} {ids : List ValueId} {p : ValueId × TypeId}
    (h : pushParams f i tys m = .ok (ids, m')) (hp : (ids.zip tys)[k]? = some p) :
    m'.value p.1 = .ok ⟨p.2, .param f (i + k)⟩ := by
  induction tys generalizing m i k ids with
  | nil =>
      rw [List.zip_nil_right] at hp
      cases hp
  | cons ty rest ih =>
      rw [pushParams, bind_of_ok (pushValue_run ty _ m)] at h
      obtain ⟨others, m₁, hrest, hend⟩ := bind_eq_ok_iff.1 h
      cases hend
      cases k with
      | zero =>
          cases hp
          exact (Build.evolves hrest).value (Checked.at_push_size _ _)
      | succ k =>
          have := ih hrest hp
          rwa [Nat.add_right_comm, Nat.add_assoc] at this

/-- There is one for each type. -/
theorem length_of_pushParams {i : Nat} {tys : List TypeId} {ids : List ValueId}
    (h : pushParams f i tys m = .ok (ids, m')) : ids.length = tys.length := by
  induction tys generalizing m i ids with
  | nil =>
      cases h
      rfl
  | cons ty rest ih =>
      rw [pushParams, bind_of_ok (pushValue_run ty _ m)] at h
      obtain ⟨others, m₁, hrest, hend⟩ := bind_eq_ok_iff.1 h
      cases hend
      exact congrArg (· + 1) (ih hrest)

/-- A function whose name is new is declared without code. -/
theorem awaits_of_declareFunction {params : List TypeId} {ret : TypeId} {variadic : Bool}
    (h : declareFunction name ty m = .ok (f, m')) (hnew : m.functionByName? name = none)
    (hty : m.types.get ty = .ok (.function params ret variadic)) :
    ∃ ids : List ValueId, ids.length = params.length ∧ m'.Awaits f (ids.zip params) := by
  rcases declareFunction_eq_ok h with ⟨hname, -⟩ | ⟨-, rfl, _, ids, m₁, hty', hids, hfree, rfl⟩
  · cases hnew.symm.trans hname
  cases hty.symm.trans hty'
  have hlength : ids.length = params.length := length_of_pushParams hids
  refine ⟨ids, hlength, ⟨⟨⟨name, ty, ids, [], none, none⟩, ?_, rfl,
    (List.map_fst_zip hlength.le).symm⟩, ?_⟩⟩
  · rw [← functions_of_pushParams hids]
    exact Checked.at_push_size _ _
  · intro i p hp
    have := value_of_pushParams hids hp
    rwa [Nat.zero_add] at this

end Build

namespace Lower

/-! ### Code that is written beside the tables -/

/-- A computation that only writes code. The operators stay as they are, and functions that are new
are support functions. -/
class WritesCode {α : Type} (x : Lower α) : Prop where
  operators : ∀ {s a s'}, x s = .ok (a, s') → s'.context.operators = s.context.operators
  free : ∀ {s a s' name}, x s = .ok (a, s') → (∀ g : SupportFunction, g.symbol ≠ name) →
    s.module.functionByName? name = none → s'.module.functionByName? name = none

section

variable {α β : Type}

instance (a : α) : WritesCode (pure a : Lower α) where
  operators h := by
    cases h
    rfl
  free h _ hfree := by
    cases h
    exact hfree

/-- A sequence that begins with such a computation. -/
theorem WritesCode.bind {x : Lower α} {f : α → Lower β} [hx : WritesCode x]
    (hf : ∀ a, WritesCode (f a)) : WritesCode (x >>= f) where
  operators h := by
    obtain ⟨a, s₁, hfirst, hrest⟩ := bind_eq_ok_iff.1 h
    exact ((hf a).operators hrest).trans (hx.operators hfirst)
  free h hname hfree := by
    obtain ⟨a, s₁, hfirst, hrest⟩ := bind_eq_ok_iff.1 h
    exact (hf a).free hrest hname (hx.free hfirst hname hfree)

instance {x : Lower α} {f : α → Lower β} [WritesCode x] [hf : ∀ a, WritesCode (f a)] :
    WritesCode (x >>= f) := .bind hf

instance {x : Lower α} {y : Lower β} [WritesCode x] [hy : WritesCode y] :
    WritesCode (x >>= fun _ => y) := .bind fun _ => hy

instance (x : Lower α) [WritesCode x] : WritesCode (discard x) :=
  inferInstanceAs (WritesCode (x >>= fun _ => pure ()))

instance (b : Build α) [hb : Build.Preserves functionIndex b] : WritesCode (liftM b : Lower α) where
  operators h := by
    obtain ⟨m, -, rfl⟩ := build_eq_ok_iff.1 h
    rfl
  free h _ hfree := by
    obtain ⟨m, hrun, rfl⟩ := build_eq_ok_iff.1 h
    rwa [Module.functionByName?, hb.same hrun]

instance (g : SupportFunction) : WritesCode (support g) where
  operators h := by
    obtain ⟨table, m, -, rfl⟩ := support_eq_ok h
    rfl
  free {s f s' name} h hname hfree := by
    obtain ⟨table, m, hget, rfl⟩ := support_eq_ok h
    unfold SupportTable.get at hget
    cases hfound : s.context.support.declared.get? g with
    | some known =>
        rw [hfound] at hget
        cases hget
        exact hfree
    | none =>
        rw [hfound] at hget
        obtain ⟨ty, m₁, hty, hget⟩ := bind_eq_ok_iff.1 hget
        obtain ⟨f', m₂, hdeclare, hget⟩ := bind_eq_ok_iff.1 hget
        cases hget
        have hsame : m₁.functionIndex = s.module.functionIndex := Build.Preserves.same hty
        refine Build.functionByName?_of_declareFunction_ne hdeclare (hname g).symm ?_
        rwa [Module.functionByName?, hsame]

end

end Lower

/-! ### Operators in their table -/

namespace OperatorTable

variable {t t' : OperatorTable} {key other : OperatorKey} {e : OperatorEntry} {i : Nat}
  {f : FunctionId}

/-- A key leads to the operator that was entered under it. -/
def Leads (t : OperatorTable) (key : OperatorKey) (f : FunctionId) : Prop :=
  ∃ i e, t.positions.get? key = some i ∧ t.get? i = some e ∧ e.function = f

/-- A new operator is found, and so are those before it. -/
theorem leads_of_insert (h : t.insert key e = some (i, t')) : t'.Leads key e.function ∧
    (∀ {other f}, t.Leads other f → t'.Leads other f) ∧
    ∀ {other}, other ≠ key → t'.contains other = t.contains other := by
  unfold insert at h
  split at h
  · cases h
  rename_i hnew
  cases h
  refine ⟨⟨_, e, by rw [Table.get?_insert, if_pos rfl], by simp [get?], rfl⟩, ?_, fun hne => ?_⟩
  · rintro other f ⟨i, e', hi, he', rfl⟩
    have hne : other ≠ key := by
      rintro rfl
      simp [contains, Table.contains, hi] at hnew
    obtain ⟨entry, hentry, rfl⟩ := Option.map_eq_some_iff.1 he'
    have hlt := (List.getElem?_eq_some_iff.1 hentry).1
    refine ⟨i, entry.2, by rw [Table.get?_insert, if_neg hne, hi], ?_, rfl⟩
    unfold get?
    rw [List.getElem?_append_left hlt, hentry]
    rfl
  · unfold contains Table.contains
    rw [Table.get?_insert, if_neg hne]

end OperatorTable

/-! ### Declarations -/

namespace DynamicArray

variable {s s' : Lowering} {key : OperatorKey} {p : ParamSig} {params : List ParamSig}
  {ret ty : TypeId} {op other : OpSymbol} {retRef : Bool} {o : Option FunctionId}

/-- An operator on a type is new: neither its table nor the module knows it, whatever its other
operands are. -/
structure IsNew (s : Lowering) (ty : TypeId) (op : OpSymbol) : Prop where
  table : ∀ key : OperatorKey, key.lhs = some ty → key.symbol = op →
    s.context.operators.contains key = false
  function : ∀ t, s.module.types.Develops t → ∀ p params symbol, p.ty = ty →
    (Callable.operator op.text (p :: params)).Symbol t symbol →
      s.module.functionByName? symbol = none

namespace IsNew

/-- No support function is called like an operator. -/
theorem symbol_ne (g : SupportFunction) (op : OpSymbol) (text : String) :
    g.symbol ≠ "operator" ++ op.text ++ text := by
  intro h
  have hhead := congrArg (fun text => text.toList.head?) h
  revert hhead
  cases g <;> simp [SupportFunction.symbol, String.toList_append]

/-- It stays new as long as no operator is entered and no function gets its name. -/
theorem mono (h : IsNew s ty op) (hlater : s.Evolves s')
    (htable : s'.context.operators = s.context.operators)
    (hfree : ∀ text, s.module.functionByName? ("operator" ++ op.text ++ text) = none →
      s'.module.functionByName? ("operator" ++ op.text ++ text) = none) : IsNew s' ty op where
  table key hlhs hop := by
    rw [htable]
    exact h.table key hlhs hop
  function t ht p params symbol hp hsymbol := by
    have hold := h.function t (hlater.module.types.trans ht) p params symbol hp hsymbol
    cases hsymbol
    exact hfree _ hold

theorem of_writesCode {α : Type} {x : Lower α} [hx : WritesCode x] {a : α} (h : IsNew s ty op)
    (hrun : x s = .ok (a, s')) (hlater : s.Evolves s') : IsNew s' ty op :=
  h.mono hlater (hx.operators hrun) fun text => hx.free hrun fun g => symbol_ne g op text

end IsNew

/-- Between two states an operator has been entered: it is found, and so are those that were found
before. Operators with another symbol stay new. -/
structure Enters (s : Lowering) (key : OperatorKey) (s' : Lowering) (f : FunctionId) : Prop where
  later : s.Evolves s'
  leads : s'.context.operators.Leads key f
  keeps : ∀ {other g}, s.context.operators.Leads other g → s'.context.operators.Leads other g
  new : ∀ {ty op}, op.text.toList.head? ≠ key.symbol.text.toList.head? → IsNew s ty op → IsNew s' ty op

/-- The operator is still there when code has been written. -/
theorem Enters.of_writesCode {s₁ : Lowering} {f : FunctionId} {α : Type} {x : Lower α}
    [hx : WritesCode x] {a : α} (h : Enters s key s₁ f) (hrun : x s₁ = .ok (a, s'))
    (hlater : s₁.Evolves s') : Enters s key s' f where
  later := h.later.trans hlater
  leads := hx.operators hrun ▸ h.leads
  keeps hold := hx.operators hrun ▸ h.keeps hold
  new hop hnew := (h.new hop hnew).of_writesCode hrun hlater

theorem Enters.after {s₁ : Lowering} {f : FunctionId} {α : Type} {x : Lower α} [hx : WritesCode x]
    {a : α} (h : Enters s₁ key s' f) (hrun : x s = .ok (a, s₁)) (hlater : s.Evolves s₁) :
    Enters s key s' f where
  later := hlater.trans h.later
  leads := h.leads
  keeps hold := h.keeps (hx.operators hrun ▸ hold)
  new hop hnew := h.new hop (hnew.of_writesCode hrun hlater)

/-- Symbols that begin differently lead to different names. -/
theorem operator_ne {text text' : String} (hop : op.text.toList.head? ≠ other.text.toList.head?) :
    "operator" ++ op.text ++ text ≠ "operator" ++ other.text ++ text' := by
  intro h
  have hnonempty (op : OpSymbol) : op.text.toList ≠ [] := by
    have hall : ∀ op ∈ OpSymbol.all, op.text.toList ≠ [] := by decide
    exact hall op op.mem_all
  have hlists := congrArg String.toList h
  rw [String.append_assoc, String.append_assoc] at hlists
  simp only [String.toList_append, List.append_cancel_left_eq] at hlists
  have hheads := congrArg List.head? hlists
  rw [List.head?_append_of_ne_nil _ (hnonempty op),
    List.head?_append_of_ne_nil _ (hnonempty other)] at hheads
  exact hop hheads

/-- A new operator is entered, and its function is declared without code. -/
theorem enters_of_declareOperator (lhs rhs : Option ParamSig) (hs : s.Known)
    (hparams : ∀ q ∈ p :: params, s.IsSource q.ty)
    (hsides : p :: params = lhs.toList ++ rhs.toList)
    (hkey : operatorKey? key.symbol (lhs.map (·.ty)) (rhs.map (·.ty)) ret = some key)
    (hleft : key.lhs = some p.ty) (hnew : IsNew s p.ty key.symbol)
    (h : declareOperator key (p :: params) ret retRef s = .ok (o, s')) :
    ∃ (f : FunctionId) (ids : List ValueId) (tys : List TypeId), o = some f ∧
      Enters s key s' f ∧ s'.module.Awaits f (ids.zip tys) ∧ ids.length = tys.length ∧
      List.Forall₂ (fun q ty => ParamSig.Declares q s'.module.types ty) (p :: params) tys := by
  have hlater := ((proceeds_declareOperator lhs rhs hs hparams hsides hkey).run h).1
  unfold declareOperator at h
  obtain ⟨symbol, s₁, hmangle, h⟩ := Attempt.bind_lift h
  obtain ⟨-, rfl, text, htext, rfl⟩ := (gives_mangle hparams).run hmangle
  have hfree := hnew.function _ (.refl _) p params _ rfl (.operator htext)
  obtain ⟨entered, henter, rfl⟩ := Attempt.bind_pure_eq_ok (g := Prod.fst) h
  unfold enterOperator at henter
  obtain ⟨fnTy, m₁, htype, henter⟩ := Attempt.bind_build henter
  obtain ⟨f, m₂, hdeclare, henter⟩ := Attempt.bind_build henter
  obtain ⟨now, s₂, hnow, henter⟩ := Attempt.bind_lift (x := get) henter
  cases hnow
  have hsame : m₁.functionIndex = s₁.module.functionIndex := Build.Preserves.same htype
  have hfree₁ {name : String} (hname : s₁.module.functionByName? name = none) :
      m₁.functionByName? name = none := by rwa [Module.functionByName?, hsame]
  obtain ⟨_, tys, result, hfn, hfirst, htys⟩ := get_of_callableType htype
  cases hfirst
  obtain ⟨ids, hlength, hawaits⟩ := Build.awaits_of_declareFunction hdeclare (hfree₁ hfree) hfn
  have hinsert : s₁.context.operators.insert key ⟨f, p :: params, ret, retRef, []⟩ = some
      (s₁.context.operators.entries.length,
        ⟨s₁.context.operators.entries ++ [(key, ⟨f, p :: params, ret, retRef, []⟩)],
          s₁.context.operators.positions.insert key s₁.context.operators.entries.length⟩) := by
    rw [OperatorTable.insert, hnew.table key hleft rfl]
    rfl
  dsimp only at henter
  rw [hinsert] at henter
  obtain ⟨⟨⟩, s₃, hmodify, henter⟩ := Attempt.bind_lift henter
  cases hmodify
  cases henter
  obtain ⟨hleads, hkeeps, hcontains⟩ := OperatorTable.leads_of_insert hinsert
  refine ⟨f, ids, tys, rfl, ⟨hlater, hleads, hkeeps, fun {ty op} hop hother => ?_⟩, hawaits,
    hlength, htys.imp fun q ty hty => hty.mono (Build.evolves hdeclare).types⟩
  refine ⟨fun key' hlhs hkey' => ?_, fun t ht q rest symbol hq hsymbol => ?_⟩
  · rw [hcontains (by rintro rfl; exact hop (hkey' ▸ rfl))]
    exact hother.table key' hlhs hkey'
  · have hold := hother.function t (hlater.module.types.trans ht) q rest symbol hq hsymbol
    cases hsymbol
    exact Build.functionByName?_of_declareFunction_ne hdeclare (operator_ne hop) (hfree₁ hold)

/-! ### Building -/

section

variable {α : Type} {f : FunctionId} {elem : TypeId}

instance (buffer : ValueId) : WritesCode (freeBuffer buffer) := by
  unfold freeBuffer
  infer_instance

instance (f : FunctionId) : WritesCode (indexBody f) := by
  unfold indexBody
  refine .bind fun _ => .bind fun _ => .bind fun _ => .bind fun _ => .bind fun _ => .bind fun _ =>
    .bind fun _ => .bind fun _ =>
    .bind fun _ => .bind fun _ => .bind fun _ => .bind fun _ => .bind fun _ => .bind fun _ =>
    .bind fun _ => ?_
  infer_instance

instance (f : FunctionId) : WritesCode (deleteBody f) := by
  unfold deleteBody
  refine .bind fun _ => .bind fun _ => .bind fun _ => .bind fun _ => .bind fun _ => .bind fun _ =>
    .bind fun _ => .bind fun _ =>
    .bind fun _ => .bind fun _ => .bind fun _ => .bind fun _ => .bind fun _ => .bind fun _ =>
    .bind fun _ => .bind fun _ => .bind fun _ => .bind fun _ => ?_
  infer_instance

instance (elemPtr long : TypeId) (elemSize : Int64) (capacity : ValueId) :
    WritesCode (newBuffer elemPtr long elemSize capacity) := by
  have hraw (o : Option ValueId) : WritesCode (match o with
      | some raw => liftM (Build.cast .bitcast raw elemPtr)
      | none => liftM (Build.constNull elemPtr) : Lower ValueId) := by
    cases o <;> infer_instance
  unfold newBuffer
  infer_instance

instance (b : AppendBlocks) (v : AppendValues) (newData oldData capacity : ValueId) :
    WritesCode (replaceBuffer b v newData oldData capacity) := by
  unfold replaceBuffer
  refine .bind fun _ => .bind fun _ => .bind fun _ => .bind fun _ => .bind fun _ => .bind fun _ =>
    .bind fun _ => .bind fun _ => ?_
  infer_instance

instance (f : FunctionId) (elem : TypeId) : WritesCode (appendBody f elem) := by
  unfold appendBody
  infer_instance

end

/-- Everything is prepared for the operators of an array type: its parts are known. -/
structure Prepared (s : Lowering) (ty elem elemPtr long : TypeId) : Prop where
  known : s.Known
  array : ∃ name, s.module.types.get ty = .ok (.named name (some [elemPtr, long, long]))
  elemPtr : s.module.types.get elemPtr = .ok (.pointer elem)
  long : s.module.types.get long = .ok (.int 64)
  source : s.IsSource ty
  elemSource : s.IsSource elem

section

variable {M : Module} {elem elemPtr long : TypeId} {size : Nat} {u : Option Unit}

theorem Prepared.mono (h : Prepared s ty elem elemPtr long) (hlater : s.Evolves s') :
    Prepared s' ty elem elemPtr long where
  known := hlater.known h.known
  array := h.array.imp fun _ hget => hlater.module.types.get_of_isOpaque_eq_false hget rfl
  elemPtr := hlater.module.types.get_of_isOpaque_eq_false h.elemPtr rfl
  long := hlater.module.types.get_of_isOpaque_eq_false h.long rfl
  source := h.source.mono hlater.module.types
  elemSource := h.elemSource.mono hlater.module.types

/-- What the module knows about the parts. -/
theorem Prepared.instances (h : Prepared s ty elem elemPtr long) : ∃ name,
    s.module.KnownTo s.context s.names ∧
      s.module.Describes ty (.named name (some [elemPtr, long, long])) ∧
      s.module.Describes elemPtr (.pointer elem) ∧ s.module.Describes long (.int 64) := by
  obtain ⟨name, harray⟩ := h.array
  exact ⟨name, ⟨h.known⟩, ⟨harray, rfl⟩, ⟨h.elemPtr, rfl⟩, ⟨h.long, rfl⟩⟩

theorem Prepared.onwards (h : Prepared s ty elem elemPtr long) {t : TypeTable}
    (ht : s.module.types.Develops t) :
      (∃ name, t.get ty = .ok (.named name (some [elemPtr, long, long]))) ∧
      t.get elemPtr = .ok (.pointer elem) ∧ t.get long = .ok (.int 64) :=
  ⟨h.array.imp fun _ hget => ht.get_of_isOpaque_eq_false hget rfl,
    ht.get_of_isOpaque_eq_false h.elemPtr rfl, ht.get_of_isOpaque_eq_false h.long rfl⟩

/-- The type of numbers is asked for again. -/
theorem Prepared.internLong (h : Prepared s ty elem elemPtr long) {long' : TypeId}
    (hrun : (liftM (Build.intType 64) : Lower TypeId) s = .ok (long', s')) :
    long' = long ∧ s.Evolves s' := by
  obtain ⟨m, hlong, rfl⟩ := build_eq_ok_iff.1 hrun
  have : s.module.Describes long (.int 64) := ⟨h.long, rfl⟩
  exact ⟨(Build.eq_of_internType long rfl rfl hlong).1.symm,
    Lowering.evolves_module (Build.progresses hlong)⟩

/-- A new operator is entered, and then its code is written. -/
theorem exists_declared {body : FunctionId → Lower Unit} [∀ f, WritesCode (body f)]
    [∀ f, Stepwise (body f)] (key : OperatorKey) (lhs rhs : Option ParamSig) (hs : s.Known)
    (hparams : ∀ q ∈ p :: params, s.IsSource q.ty)
    (hsides : p :: params = lhs.toList ++ rhs.toList)
    (hkey : operatorKey? key.symbol (lhs.map (·.ty)) (rhs.map (·.ty)) ret = some key)
    (hleft : key.lhs = some p.ty) (hnew : IsNew s p.ty key.symbol)
    (hrun : (do
      let f ← declareOperator key (p :: params) ret retRef
      body f : Attempt Unit) s = .ok (u, s')) :
    ∃ (f : FunctionId) (ids : List ValueId) (tys : List TypeId) (s₁ : Lowering),
      Enters s key s' f ∧ s.Evolves s₁ ∧ s₁.module.Awaits f (ids.zip tys) ∧
      ids.length = tys.length ∧
      List.Forall₂ (fun q ty => ParamSig.Declares q s₁.module.types ty) (p :: params) tys ∧
      body f s₁ = .ok ((), s') := by
  rcases Attempt.bind_cases hrun with ⟨f, s₁, hdeclare, hbody⟩ | ⟨hdeclare, -⟩
  · obtain ⟨f', ids, tys, hf, henters, hawaits, hlength, htys⟩ :=
      enters_of_declareOperator lhs rhs hs hparams hsides hkey hleft hnew hdeclare
    cases hf
    obtain ⟨⟨⟩, hbody, -⟩ := Attempt.lift_eq_ok hbody
    have hlater := Stepwise.later (henters.later.known hs) hbody
    exact ⟨f, ids, tys, s₁, henters.of_writesCode hbody hlater, henters.later, hawaits, hlength,
      htys, hbody⟩
  · obtain ⟨f', ids, tys, hf, -⟩ :=
      enters_of_declareOperator lhs rhs hs hparams hsides hkey hleft hnew hdeclare
    cases hf

/-- The operator for indexing is entered, and its code is there in every later module. -/
theorem exists_index (h : Prepared s ty elem elemPtr long) (hnew : IsNew s ty .index)
    (hrun : buildIndex ty elem s = .ok (u, s')) (hM : s'.module.Evolves M) :
    ∃ f entry outOfBounds inBounds array index, Enters s (.binary ty .index long) s' f ∧
      M.Runnable f entry [array, index] ∧
      IndexCode M entry outOfBounds inBounds array index ty elem elemPtr long := by
  unfold buildIndex at hrun
  obtain ⟨long', s₁, hlong, hrun⟩ := Attempt.bind_lift hrun
  have hlong : (liftM (Build.intType 64) : Lower TypeId) s = .ok (long', s₁) := hlong
  obtain ⟨rfl, h₁⟩ := h.internLong hlong
  have hprep₁ := h.mono h₁
  have hparams : ∀ q ∈ [ParamSig.reference ty, .value long'], s₁.IsSource q.ty := by
    intro q hq
    rcases List.mem_pair.1 hq with rfl | rfl
    · exact hprep₁.source
    · exact TypeTable.isSource_of_atomText? hprep₁.long rfl
  obtain ⟨f, ids, tys, s₂, henters, h₂, hawaits, hlength, htys, hbody⟩ :=
    exists_declared (.binary ty .index long') (some (.reference ty)) (some (.value long'))
      hprep₁.known hparams rfl rfl rfl (hnew.of_writesCode hlong h₁) hrun
  obtain _ | ⟨href, _ | ⟨hvalue, _ | _⟩⟩ := htys
  obtain ⟨array, index, rfl⟩ := List.length_eq_two.1 hlength
  obtain rfl : _ = long' := hvalue
  obtain ⟨name, _, _, _, _⟩ := (hprep₁.mono h₂).instances
  have : s₂.module.Describes _ (.pointer ty) := ⟨href, rfl⟩
  obtain ⟨entry, outOfBounds, inBounds, hrunnable, hcode⟩ := exists_indexCode hawaits hbody hM
  exact ⟨f, entry, outOfBounds, inBounds, array, index, henters.after hlong h₁, hrunnable, hcode⟩

/-- The operator for appending is entered, and its code is there in every later module. -/
theorem exists_append {size : Nat} (h : Prepared s ty elem elemPtr long) (hnew : IsNew s ty (.binary .shl))
    (hcomplete : s.module.types.IsComplete elem) (hsize : s.module.types.sizeOf elem = .ok size)
    (hrun : buildAppend ty elem s = .ok (u, s')) (hM : s'.module.Evolves M)
    (hcalloc : M.Allocates) :
    ∃ f b v, Enters s (.binary ty (.binary .shl) elem) s' f ∧
      M.Runnable f b.entry [v.array, v.value] ∧
      AppendCode M b v (sizeWord (max size 1)) ty elem elemPtr long := by
  unfold buildAppend at hrun
  have hparams : ∀ q ∈ [ParamSig.reference ty, .value elem], s.IsSource q.ty := by
    intro q hq
    rcases List.mem_pair.1 hq with rfl | rfl
    · exact h.source
    · exact h.elemSource
  obtain ⟨f, ids, tys, s₁, henters, h₁, hawaits, hlength, htys, hbody⟩ :=
    exists_declared (.binary ty (.binary .shl) elem) (some (.reference ty)) (some (.value elem))
      h.known hparams rfl rfl rfl hnew hrun
  obtain _ | ⟨href, _ | ⟨hvalue, _ | _⟩⟩ := htys
  obtain ⟨array, value, rfl⟩ := List.length_eq_two.1 hlength
  obtain rfl : _ = elem := hvalue
  obtain ⟨name, _, _, _, _⟩ := (h.mono h₁).instances
  have : s₁.module.Describes _ (.pointer ty) := ⟨href, rfl⟩
  obtain ⟨b, v, rfl, rfl, hrunnable, hcode⟩ := exists_appendCode hawaits hbody hM hcalloc
    (hcomplete.mono h₁.module.types) (hcomplete.sizeOf_eq h₁.module.types hsize)
  exact ⟨f, b, v, henters, hrunnable, hcode⟩

/-- The operator for deletion is entered, and its code is there in every later module. -/
theorem exists_delete (h : Prepared s ty elem elemPtr long) (hnew : IsNew s ty .delete)
    (hrun : buildDelete ty s = .ok (u, s')) (hM : s'.module.Evolves M) :
    ∃ f entry freeBlock reset v, Enters s (.behind ty .delete) s' f ∧
      M.Runnable f entry [v.array] ∧ DeleteCode M entry freeBlock reset v ty elemPtr long := by
  unfold buildDelete at hrun
  obtain ⟨void, s₁, hvoid, hrun⟩ := Attempt.bind_lift hrun
  have hvoid : (liftM Build.voidType : Lower TypeId) s = .ok (void, s₁) := hvoid
  have h₁ := Stepwise.later h.known hvoid
  have hprep₁ := h.mono h₁
  have hparams : ∀ q ∈ [ParamSig.reference ty], s₁.IsSource q.ty := by
    intro q hq
    cases List.mem_singleton.1 hq
    exact hprep₁.source
  obtain ⟨f, ids, tys, s₂, henters, h₂, hawaits, hlength, htys, hbody⟩ :=
    exists_declared (.behind ty .delete) (some (.reference ty)) none hprep₁.known hparams rfl rfl rfl
      (hnew.of_writesCode hvoid h₁) hrun
  obtain _ | ⟨href, _ | _⟩ := htys
  obtain ⟨array, rfl⟩ := List.length_eq_one_iff.1 hlength
  obtain ⟨name, _, _, _, _⟩ := (hprep₁.mono h₂).instances
  have : s₂.module.Describes _ (.pointer ty) := ⟨href, rfl⟩
  obtain ⟨entry, freeBlock, reset, v, rfl, hrunnable, hcode⟩ := exists_deleteCode hawaits hbody hM
  exact ⟨f, entry, freeBlock, reset, v, henters.after hvoid h₁, hrunnable, hcode⟩

/-- An object without members gets its members. -/
theorem completeObject_eq_ok {members : List (Name × TypeId)} {name : String} {info : ObjectInfo}
    (hbare : s.module.types.get ty = .ok (.named name none))
    (hobject : s.context.symbols.objectByType? ty = some info)
    (hrun : completeObject ty members s = .ok ((), s')) :
    ∃ types, ∃ hset : s.module.types.setStructBody ty (members.map Prod.snd) = .ok (true, types),
      s' = { s with
        module := s.module.withTypes types (s.module.typesIndexed.setStructBody hset)
        context := { s.context with
          symbols := s.context.symbols.modifyByType ty fun info =>
            { info with members := members, complete := true } } } := by
  unfold completeObject at hrun
  obtain ⟨done, s₁, hbody, hrun⟩ := bind_eq_ok_iff.1 hrun
  obtain ⟨m, hfill, rfl⟩ := build_eq_ok_iff.1 hbody
  obtain ⟨types, hset, rfl⟩ := Build.setStructBody_eq_ok hfill
  have hdone : done = true := by
    obtain ⟨kind, hkind, hrest⟩ :=
      (answer_bind_eq_ok_iff (x := s.module.types.get ty)).1 hset
    cases hbare.symm.trans hkind
    cases hrest
    rfl
  rw [bind_of_ok (symbols_apply _), hobject] at hrun
  cases hrun
  exact ⟨types, hdone ▸ hset, rfl⟩

/-- The operators of an array type, as functions. -/
structure Operators where
  index : FunctionId
  append : FunctionId
  delete : FunctionId

/-- The operators are there, and they have their code. -/
structure Operators.Coded (ops : Operators) (M : Module) (ty elem elemPtr long : TypeId)
    (size : Nat) : Prop where
  array : M.types.HasArray ty elem elemPtr long size
  index : ∃ entry outOfBounds inBounds array index, M.Runnable ops.index entry [array, index] ∧
    IndexCode M entry outOfBounds inBounds array index ty elem elemPtr long
  append : ∃ b v, M.Runnable ops.append b.entry [v.array, v.value] ∧
    AppendCode M b v (sizeWord (max size 1)) ty elem elemPtr long
  delete : ∃ entry freeBlock reset v, M.Runnable ops.delete entry [v.array] ∧
    DeleteCode M entry freeBlock reset v ty elemPtr long

/-- The operators are found under their keys. -/
structure Operators.Entered (ops : Operators) (t : OperatorTable) (ty elem long : TypeId) : Prop where
  index : t.Leads (.binary ty .index long) ops.index
  append : t.Leads (.binary ty (.binary .shl) elem) ops.append
  delete : t.Leads (.behind ty .delete) ops.delete

/-- The operators of an array type are entered and get their code, in this order. -/
theorem exists_operators (h : Prepared s ty elem elemPtr long)
    (hnew : ∀ op ∈ [OpSymbol.index, .binary .shl, .delete], IsNew s ty op)
    (hcomplete : s.module.types.IsComplete elem) (hsize : s.module.types.sizeOf elem = .ok size)
    (hrun : (do
      let here ← position
      let _ ← (buildIndex ty elem).run
      let _ ← (buildAppend ty elem).run
      let _ ← (buildDelete ty).run
      Build.restorePosition here : Lower Unit) s = .ok ((), s'))
    (hM : s'.module.Evolves M) (hcalloc : M.Allocates) :
    ∃ ops : Operators, ops.Entered s'.context.operators ty elem long ∧
      ops.Coded M ty elem elemPtr long size := by
  rw [bind_of_ok (position_apply s)] at hrun
  obtain ⟨u₁, s₁, hindex, hrun⟩ := bind_eq_ok_iff.1 hrun
  obtain ⟨u₂, s₂, happend, hrun⟩ := bind_eq_ok_iff.1 hrun
  obtain ⟨u₃, s₃, hdelete, hrun⟩ := bind_eq_ok_iff.1 hrun
  obtain ⟨m, hback, rfl⟩ := build_eq_ok_iff.1 hrun
  have hM₃ : s₃.module.Evolves M := (Build.evolves hback).trans hM
  have h₁ := ((proceeds_buildIndex elem h.known h.source).run hindex).1
  have hprep₁ := h.mono h₁
  have h₂ := ((proceeds_buildAppend hprep₁.known hprep₁.source hprep₁.elemSource).run happend).1
  have hprep₂ := hprep₁.mono h₂
  have h₃ := ((proceeds_buildDelete hprep₂.known hprep₂.source).run hdelete).1
  have hM₂ := h₃.module.trans hM₃
  have hshl : (OpSymbol.binary .shl).text.toList.head? ≠ OpSymbol.index.text.toList.head? := by
    decide
  have hindex' : OpSymbol.delete.text.toList.head? ≠ OpSymbol.index.text.toList.head? := by decide
  have hshl' : OpSymbol.delete.text.toList.head? ≠ (OpSymbol.binary .shl).text.toList.head? := by
    decide
  obtain ⟨index, entry, outOfBounds, inBounds, array, i, henters₁, hrunnable₁, hcode₁⟩ :=
    exists_index h (hnew _ (by simp)) hindex (h₂.module.trans hM₂)
  obtain ⟨append, b, v, henters₂, hrunnable₂, hcode₂⟩ :=
    exists_append hprep₁ (henters₁.new hshl (hnew _ (by simp))) (hcomplete.mono h₁.module.types)
      (hcomplete.sizeOf_eq h₁.module.types hsize) happend hM₂ hcalloc
  obtain ⟨delete, entry', freeBlock, reset, v', henters₃, hrunnable₃, hcode₃⟩ :=
    exists_delete hprep₂ (henters₂.new hshl' (henters₁.new hindex' (hnew _ (by simp))))
      hdelete hM₃
  have htypes := (h₁.module.types.trans h₂.module.types).trans (h₃.module.types.trans hM₃.types)
  obtain ⟨harray, hptr, hlong⟩ := (hprep₂.mono h₃).onwards hM₃.types
  refine ⟨⟨index, append, delete⟩, ⟨henters₃.keeps (henters₂.keeps henters₁.leads),
    henters₃.keeps henters₂.leads, henters₃.leads⟩, ⟨harray, hptr, hlong, ?_⟩,
    ⟨entry, outOfBounds, inBounds, array, i, hrunnable₁, hcode₁⟩, ⟨b, v, hrunnable₂, hcode₂⟩,
    entry', freeBlock, reset, v', hrunnable₃, hcode₃⟩
  exact hcomplete.sizeOf_eq htypes hsize

/-- A type is entered beside the others, and nothing else happens. -/
theorem internType_eq_ok {kind old : IrType} {hkind : kind.description? = some kind} {id : TypeId}
    (hrun : (liftM (Build.internType kind hkind) : Lower TypeId) s = .ok (id, s'))
    (hold : s.module.types.get ty = .ok old) :
    s'.context = s.context ∧ s'.module.types.get ty = .ok old ∧
      s'.module.types.get id = .ok kind := by
  obtain ⟨m, hintern, rfl⟩ := build_eq_ok_iff.1 hrun
  cases hintern
  exact ⟨rfl, TypeTable.get_intern_of_ok _ hold, Module.get_intern _ _⟩

/-- A name is entered beside the others, and nothing else happens. -/
theorem intern_eq_ok {text : String} {n : Name} (hrun : intern text s = .ok (n, s')) :
    s'.context = s.context ∧ s'.module = s.module := by
  cases hrun
  exact ⟨rfl, rfl⟩

/-- An object keeps its type when it is changed. -/
theorem isSome_objectByType?_modifyByType {t : SymbolTable} {f : ObjectInfo → ObjectInfo}
    (h : (t.objectByType? ty).isSome) : ((t.modifyByType ty f).objectByType? ty).isSome := by
  obtain ⟨info, hinfo⟩ := Option.isSome_iff_exists.1 h
  obtain ⟨name, hname, hobject⟩ := Option.bind_eq_some_iff.1 hinfo
  unfold SymbolTable.modifyByType SymbolTable.modifyObject
  simp only [hname, SymbolTable.objectByType?, Option.bind_some, Table.get?_modify, if_pos, hobject,
    Option.map_some, Option.isSome_some]

/-- An array type has been declared for elements of a known size, but has no parts and no operators
yet. -/
structure IsPlanned (s : Lowering) (ty elem : TypeId) (size : Nat) : Prop where
  source : s.IsSource ty
  elemSource : s.IsSource elem
  unfilled : ∃ name, s.module.types.get ty = .ok (.named name none)
  object : (s.context.symbols.objectByType? ty).isSome
  new : ∀ op ∈ [OpSymbol.index, .binary .shl, .delete], IsNew s ty op
  nonvoid : s.module.types.get elem ≠ .ok .void
  complete : s.module.types.IsComplete elem
  sizeOf : s.module.types.sizeOf elem = .ok size

/-- An array type gets its parts and its operators: they are found under their keys, and in every
later module they have their code. -/
theorem exists_operators_of_build {u : Unit} (hs : s.Known)
    (hplan : IsPlanned s ty elem size) (hrun : build ty elem s = .ok (u, s'))
    (hM : s'.module.Evolves M) (hcalloc : M.Allocates) :
    ∃ elemPtr long, ∃ ops : Operators, ops.Entered s'.context.operators ty elem long ∧
      ops.Coded M ty elem elemPtr long size := by
  obtain ⟨hty, helem, ⟨name, hbare⟩, hobject, hnew, hvoid, hcomplete, hsize⟩ := hplan
  unfold build at hrun
  obtain ⟨kind, s₁, hkind, hrun⟩ := bind_eq_ok_iff.1 hrun
  obtain ⟨m, hask, rfl⟩ := build_eq_ok_iff.1 hkind
  obtain ⟨hget, rfl⟩ := Build.ask_eq_ok_iff.1 hask
  rw [if_neg (by rintro rfl; exact hvoid hget)] at hrun
  -- The members and their names.
  obtain ⟨elemPtr, s₂, hptr, hrun⟩ := bind_eq_ok_iff.1 hrun
  obtain ⟨long, s₃, hlong, hrun⟩ := bind_eq_ok_iff.1 hrun
  obtain ⟨data, s₄, hdata, hrun⟩ := bind_eq_ok_iff.1 hrun
  obtain ⟨length, s₅, hlength, hrun⟩ := bind_eq_ok_iff.1 hrun
  obtain ⟨capacity, s₆, hcapacity, hrun⟩ := bind_eq_ok_iff.1 hrun
  obtain ⟨⟨⟩, s₇, hfilled, hrun⟩ := bind_eq_ok_iff.1 hrun
  have h₂ : s.Evolves s₂ := Stepwise.later hs hptr
  have h₃ := h₂.trans (Stepwise.later (h₂.known hs) hlong)
  have h₄ := h₃.trans (Stepwise.later (h₃.known hs) hdata)
  have h₅ := h₄.trans (Stepwise.later (h₄.known hs) hlength)
  have h₆ := h₅.trans (Stepwise.later (h₅.known hs) hcapacity)
  obtain ⟨hcontext₂, hbare₂, hptr₂⟩ := internType_eq_ok hptr hbare
  obtain ⟨hcontext₃, hbare₃, hlong₃⟩ := internType_eq_ok hlong hbare₂
  obtain ⟨hcontext₄, hmodule₄⟩ := intern_eq_ok hdata
  obtain ⟨hcontext₅, hmodule₅⟩ := intern_eq_ok hlength
  obtain ⟨hcontext₆, hmodule₆⟩ := intern_eq_ok hcapacity
  have hmodule : s₆.module = s₃.module := hmodule₆.trans (hmodule₅.trans hmodule₄)
  have hcontext : s₆.context = s.context :=
    hcontext₆.trans (hcontext₅.trans (hcontext₄.trans (hcontext₃.trans hcontext₂)))
  have hptr₃ := (Stepwise.later (h₂.known hs) hlong).module.types.get_of_isOpaque_eq_false hptr₂ rfl
  rw [← hmodule] at hbare₃ hlong₃ hptr₃
  rw [← hcontext] at hobject
  have hnew₆ : ∀ op ∈ [OpSymbol.index, .binary .shl, .delete], IsNew s₆ ty op := by
    intro op hop
    have hnew₂ := (hnew op hop).of_writesCode hptr h₂
    have hnew₃ := hnew₂.of_writesCode hlong (Stepwise.later (h₂.known hs) hlong)
    refine hnew₃.mono ?_ ?_ fun text hold => ?_
    · exact (Stepwise.later (h₃.known hs) hdata).trans
        ((Stepwise.later (h₄.known hs) hlength).trans (Stepwise.later (h₅.known hs) hcapacity))
    · rw [hcontext₆, hcontext₅, hcontext₄]
    · rwa [hmodule]
  -- The members are filled in.
  have hmembers : ∀ e ∈ [(data, elemPtr), (length, long), (capacity, long)],
      ∃ kind, s₆.module.types.get e.2 = .ok kind ∧ kind.isOpaque = false := by
    simp only [List.forall_mem_cons, List.not_mem_nil, false_implies, implies_true, and_true]
    exact ⟨⟨_, hptr₃, rfl⟩, ⟨_, hlong₃, rfl⟩, _, hlong₃, rfl⟩
  have h₇ := ((proceeds_completeObject (h₆.known hs) (fun name hfull hmem => by
    obtain ⟨e, he, rfl⟩ := List.mem_map.1 hmem
    obtain ⟨kind, hkind, hnot⟩ := hmembers e he
    cases hfull.symm.trans hkind
    cases hnot) fun e he => (hmembers e he).imp fun _ hkind => hkind.1).run hfilled).1
  obtain ⟨info, hinfo⟩ := Option.isSome_iff_exists.1 hobject
  obtain ⟨types, hset, rfl⟩ := completeObject_eq_ok hbare₃ hinfo hfilled
  obtain ⟨_, hname, htypes⟩ := TypeTable.get_setStructBody hset ty
  cases hbare₃.symm.trans hname
  rw [if_pos rfl] at htypes
  have hprepared := h₆.trans h₇
  have hprep : Prepared _ ty elem elemPtr long :=
    { known := hprepared.known hs
      array := ⟨_, htypes⟩
      elemPtr := h₇.module.types.get_of_isOpaque_eq_false hptr₃ rfl
      long := h₇.module.types.get_of_isOpaque_eq_false hlong₃ rfl
      source := hty.mono hprepared.module.types
      elemSource := helem.mono hprepared.module.types }
  rw [bind_of_ok (symbols_apply _), if_pos (isSome_objectByType?_modifyByType hobject)] at hrun
  obtain ⟨ops, hentered, hcoded⟩ := exists_operators hprep
    (fun op hop => (hnew₆ op hop).mono h₇ rfl fun _ hold => hold)
    (hcomplete.mono hprepared.module.types) (hcomplete.sizeOf_eq hprepared.module.types hsize) hrun
    hM hcalloc
  exact ⟨elemPtr, long, ops, hentered, hcoded⟩

end

end DynamicArray

end SsaCompiler
