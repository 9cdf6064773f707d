/-
# Dynamic arrays behave like lists

An array of a program is used through its three operators: elements are appended, one of them is
asked for, or all of them are removed. After any number of these the array stands for the list that
comes out when the same is done to a list. Whatever is asked for at a position of the list is found,
and at any other position the program ends.

One action is a run of one operator. A history is followed action by action, and what carries it is
that the array models a list: its fields say where the buffer is, how many elements it has and how
many there is room for, and there is one block on the heap for it exactly if there is any room.
-/

import SsaCompiler.Proofs.DynamicArray.Entry

namespace SsaCompiler

open Lower SsaCompiler.Module

namespace DynamicArray

/-! ### Histories of an array -/

/-- Something that is done with an array. -/
inductive Action where
  | index (i : Int64)
  | append (x : Val)
  | delete

namespace Action

/-- The operator that does it, and the arguments that it is called with. -/
def request (ops : Operators) (a : UInt64) : Action → FunctionId × List Val
  | index i => (ops.index, [.ptr a, .int i])
  | append x => (ops.append, [.ptr a, x])
  | delete => (ops.delete, [.ptr a])

/-- What is left of a list. -/
def apply (l : List Val) : Action → List Val
  | index _ => l
  | append x => l ++ [x]
  | delete => []

/-- Only an index that is out of bounds is refused. -/
def IsRefused (l : List Val) : Action → Prop
  | index i => ¬InBounds i l
  | append _ | delete => False

/-- Only values of the element type are appended. -/
def Fits (t : TypeTable) (elem : TypeId) : Action → Prop
  | append x => t.Conforms elem x
  | index _ | delete => True

/-- What the operator answers: the place of the element, or the array itself, or nothing. -/
def Answers (t : TypeTable) (elem : TypeId) (size : Nat) (a : UInt64) (l : List Val) (y : Val)
    (μ : Memory) : Action → Prop
  | index i => ∃ k x place, i = Int64.ofNat k ∧ l[k]? = some x ∧ y = .ptr place ∧
      μ.Contains t place elem size x
  | append _ => y = .ptr a
  | delete => y = .void

end Action

section

variable (M : Module) (limits : Limits) (ops : Operators) (elem elemPtr long : TypeId)
  (size others : Nat) (a : UInt64)

/-- The operators do one thing after the other with an array that models a list, from a state on.
A refused action ends the program and leaves the memory alone. After any other one the operator has
answered, the array models what is left of the list, and it goes on like this. -/
def Behaves (l : List Val) : List Action → MachineState → Prop
  | [], _ => True
  | act :: rest, s => Delivers (Exec.call M limits (act.request ops a).1 (act.request ops a).2 s)
      (fun e μ => e = .failed .aborted ∧ act.IsRefused l ∧ μ = s.memory)
      fun y s' => ¬act.IsRefused l ∧ act.Answers M.types elem size a l y s'.memory ∧
        ModelsList M.types elem elemPtr long size others s'.memory a (act.apply l) ∧
        Behaves (act.apply l) rest s'

end

end DynamicArray

/-- Whether the functions of a type answer with an address. -/
def TypeTable.answersAddress (t : TypeTable) (ty : TypeId) : Bool :=
  match t.get ty with
  | .ok (.function _ result _) =>
    match t.get result with
    | .ok (.pointer _) => true
    | _ => false
  | _ => false

theorem TypeTable.answersAddress_iff {t : TypeTable} {ty : TypeId} : t.answersAddress ty = true ↔
    ∃ params result variadic pointee, t.get ty = .ok (.function params result variadic) ∧
      t.get result = .ok (.pointer pointee) := by
  unfold TypeTable.answersAddress
  constructor
  · intro h
    split at h
    · rename_i params result variadic hty
      split at h
      · rename_i pointee hresult
        exact ⟨params, result, variadic, pointee, hty, hresult⟩
      · cases h
    · cases h
  · rintro ⟨params, result, variadic, pointee, hty, hresult⟩
    simp only [hty, hresult]

instance (M : Module) : Decidable M.Allocates :=
  decidable_of_iff (∀ f ∈ M.functionByName? "calloc", ∀ d ∈ (M.function f).toOption,
      M.types.answersAddress d.ty)
    ⟨fun h f d hf hd => TypeTable.answersAddress_iff.1 (h f hf d (mem_toOption_iff.2 hd)),
      fun h f hf d hd => TypeTable.answersAddress_iff.2 (h f d hf (mem_toOption_iff.1 hd))⟩

/-- The functions that arrays need are left to the runtime, and the one that makes buffers answers
with an address. -/
structure Module.LeavesToRuntime (M : Module) : Prop where
  calloc : M.IsExternal "calloc"
  free : M.IsExternal "free"
  abort : M.IsExternal "abort"
  allocates : M.Allocates

instance (M : Module) : Decidable M.LeavesToRuntime :=
  decidable_of_iff (M.IsExternal "calloc" ∧ M.IsExternal "free" ∧ M.IsExternal "abort" ∧ M.Allocates)
    ⟨fun ⟨hcalloc, hfree, habort, hallocates⟩ => ⟨hcalloc, hfree, habort, hallocates⟩,
      fun h => ⟨h.calloc, h.free, h.abort, h.allocates⟩⟩

namespace DynamicArray

section

variable {M : Module} {limits : Limits} {ops : Operators} {ty elem elemPtr long : TypeId}
  {size others : Nat} {a : UInt64} {l : List Val} {s : MachineState}

theorem delivers_action (hops : ops.Coded M ty elem elemPtr long size) (hM : M.LeavesToRuntime)
    (hunit : stackBase + 4 * max size 1 + blockAlign < wordRange)
    (hlist : ModelsList M.types elem elemPtr long size others s.memory a l) (act : Action)
    (hfits : act.Fits M.types elem) :
    Delivers (Exec.call M limits (act.request ops a).1 (act.request ops a).2 s)
      (fun e μ => e = .failed .aborted ∧ act.IsRefused l ∧ μ = s.memory)
      fun y s' => ¬act.IsRefused l ∧ act.Answers M.types elem size a l y s'.memory ∧
        ModelsList M.types elem elemPtr long size others s'.memory a (act.apply l) := by
  cases act with
  | index i =>
      obtain ⟨entry, outOfBounds, inBounds, array, index, hrunnable, hcode⟩ := hops.index
      refine (delivers_index hrunnable hcode hops.array hM.abort hlist).imp (fun e μ h => h) ?_
      rintro y s' ⟨hsame, hbounds, hplace⟩
      rw [← hsame] at hplace hlist
      exact ⟨not_not_intro hbounds, hplace, hlist⟩
  | append x =>
      obtain ⟨b, v, hrunnable, hcode⟩ := hops.append
      refine (delivers_append hrunnable hcode hops.array hM.calloc hM.free hunit hlist hfits).imp
        (fun e μ h => h.elim) ?_
      rintro y s' ⟨rfl, hlist'⟩
      exact ⟨id, rfl, hlist'⟩
  | delete =>
      obtain ⟨entry, freeBlock, reset, v, hrunnable, hcode⟩ := hops.delete
      refine (delivers_delete hrunnable hcode hops.array hM.free hlist).imp (fun e μ h => h.elim) ?_
      rintro y s' ⟨rfl, hlist'⟩
      exact ⟨id, rfl, hlist'⟩

theorem behaves (hops : ops.Coded M ty elem elemPtr long size) (hM : M.LeavesToRuntime)
    (hunit : stackBase + 4 * max size 1 + blockAlign < wordRange) (actions : List Action)
    (hfits : ∀ act ∈ actions, act.Fits M.types elem)
    (hlist : ModelsList M.types elem elemPtr long size others s.memory a l) :
    Behaves M limits ops elem elemPtr long size others a l actions s := by
  induction actions generalizing l s with
  | nil => trivial
  | cons act rest ih =>
      refine (delivers_action hops hM hunit hlist act (hfits act List.mem_cons_self)).imp
        (fun _ _ h => h) ?_
      rintro y s' ⟨hallowed, hanswer, hlist'⟩
      exact ⟨hallowed, hanswer, hlist', ih (fun other h => hfits other (List.mem_cons_of_mem _ h)) hlist'⟩

end

section

variable {t : TypeTable} {ty elem elemPtr long : TypeId} {size : Nat} {m : Memory} {a : UInt64}

/-- A zeroed array has no buffer, no elements and no capacity. -/
theorem hasFields_of_zeroed (ht : t.HasArray ty elem elemPtr long size)
    (hroom : m.HasRoom a.toNat (a.toNat + 24))
    (hzero : ∀ i < 3, m.readWord (fieldAt a i) 8 = .ok 0) :
    HasFields t elemPtr long m a 0 0 0 := by
  have hplace : ∀ i < 3, m.HasRoom (fieldAt a i).toNat ((fieldAt a i).toNat + 8) := by
    intro i hi
    have hfield := toNat_fieldAt_of_hasRoom hroom hi
    exact hroom.mono (by omega) (by omega)
  have hlong : ∀ i < 3, m.Contains t (fieldAt a i) long 8 (.int 0) := by
    intro i hi
    refine ⟨ht.conforms_long 0, ht.isWord_long.2, hplace i hi, ?_⟩
    rw [Memory.read, Memory.readWithin_int ht.long, show bytesForBits 64 = 8 from rfl, hzero i hi]
    rfl
  refine ⟨hroom, ⟨ht.conforms_elemPtr 0, ht.isWord_elemPtr.2, hplace dataField (by decide), ?_⟩,
    hlong lengthField (by decide), hlong capacityField (by decide)⟩
  rw [Memory.read, Memory.readWithin_address ht.elemPtr rfl, show pointerSize = 8 from rfl,
    hzero dataField (by decide)]
  rfl

end

/-- The operators that an array type gets do to an array what the actions do to a list, in any later
module that leaves the functions for memory to the runtime. At the beginning the array is zeroed. -/
theorem behaves_like_a_list {s s' : Lowering} {u : Unit} {M : Module} {ty elem : TypeId}
    {size : Nat} (hs : s.Known)
    (hplan : IsPlanned s ty elem size) (hrun : build ty elem s = .ok (u, s'))
    (hM : s'.module.Evolves M) (hruntime : M.LeavesToRuntime)
    (hunit : stackBase + 4 * max size 1 + blockAlign < wordRange) :
    ∃ elemPtr long, ∃ ops : Operators, ops.Entered s'.context.operators ty elem long ∧
      M.types.HasArray ty elem elemPtr long size ∧
      ∀ (limits : Limits) (a : UInt64) (st : MachineState) (actions : List Action),
        st.memory.IsBounded → st.memory.HasRoom a.toNat (a.toNat + 24) →
        (∀ i < 3, st.memory.readWord (fieldAt a i) 8 = .ok 0) →
        (∀ act ∈ actions, act.Fits M.types elem) →
          Behaves M limits ops elem elemPtr long size st.memory.live a [] actions st := by
  obtain ⟨elemPtr, long, ops, hentered, hcoded⟩ :=
    exists_operators_of_build hs hplan hrun hM hruntime.allocates
  refine ⟨elemPtr, long, ops, hentered, hcoded.array, ?_⟩
  intro limits a st actions hbounded hroom hzero hfits
  exact behaves hcoded hruntime hunit actions hfits
    (modelsList_nil hbounded (hasFields_of_zeroed hcoded.array hroom hzero))

/-- An array of words is declared. -/
def declareWords : Lower (TypeId × TypeId) := do
  let elem ← (liftM PrimType.int.lower : Lower TypeId)
  let name ← intern "Array<int>"
  let ty ← Build.namedStruct "Array<int>"
  modifySymbols (·.declareObject (.new name ty))
  return (elem, ty)

/-- Its types can be written down. -/
theorem gives_declareWords {s : Lowering} (hs : s.Known) :
    Gives (fun s' made => s'.IsSource made.1 ∧ s'.IsSource made.2) declareWords s := by
  unfold declareWords
  refine (PrimType.int.gives_lower s).bind hs fun elem s₁ _ hs₁ helem => ?_
  refine (gives_intern _ s₁).bind hs₁ fun name s₂ h₂ hs₂ hname => ?_
  refine (gives_namedStruct _ hs₂).bind hs₂ fun ty s₃ h₃ hs₃ hty => ?_
  refine (gives_declareNew (h₃.names _ _ hname) hty.2.1 hty.2.2).bind hs₃ fun _ s₄ h₄ _ hsource => ?_
  exact .pure ⟨helem.mono (h₂.trans (h₃.trans h₄)).module.types, hsource⟩

/-- An operator is new where there are no functions and no operators. -/
theorem isNew_of_isEmpty {s : Lowering} {ty : TypeId} {op : OpSymbol}
    (hfunctions : s.module.functionIndex = .empty) (htable : s.context.operators = .empty) :
    IsNew s ty op where
  table key _ _ := by rw [htable]; rfl
  function _ _ _ _ _ _ _ := by rw [Module.functionByName?, hfunctions]; rfl

/-- In the array two words are put, one is read, and after everything has been removed none is left. -/
theorem behaves_like_a_list_words : ∃ (s s' : Lowering) (ty elem : TypeId), IsPlanned s ty elem 4 ∧
    build ty elem s = .ok ((), s') ∧ ∃ (elemPtr long : TypeId) (ops : Operators) (st : MachineState),
      Behaves s'.module .standard ops elem elemPtr long 4 0 (UInt64.ofNat stackBase) []
        [.append (.int 7), .append (.int 8), .index 1, .delete, .index 0] st := by
  let s₀ : Lowering :=
    let c := Compilation.new .standard "words"
    ⟨c.context, c.names, c.module, .new ⟨0⟩⟩
  have hs₀ : s₀.Known := Compilation.known_new .standard "words"
  have hrun : (match declareWords s₀ with
      | .ok ((elem, ty), s) => decide (s.module.types.get ty = .ok (.named "Array<int>" none) ∧
          s.module.types.get elem = .ok (.int 32) ∧ (s.context.symbols.objectByType? ty).isSome ∧
          s.module.functionIndex = .empty ∧ s.context.operators = .empty) &&
        (match build ty elem s with
          | .ok ((), s') => decide s'.module.LeavesToRuntime
          | .error _ => false)
      | .error _ => false) = true := by decide +kernel
  split at hrun
  · rename_i elem ty s hmade
    rw [Bool.and_eq_true, decide_eq_true_iff] at hrun
    obtain ⟨⟨hty, helem, hobject, hfunctions, htable⟩, hrun⟩ := hrun
    obtain ⟨hlater, hsources⟩ := (gives_declareWords hs₀).run hmade
    have hplan : IsPlanned s ty elem 4 :=
      { source := hsources.2
        elemSource := hsources.1
        unfilled := ⟨_, hty⟩
        object := hobject
        new := fun op _ => isNew_of_isEmpty hfunctions htable
        nonvoid := fun h => by cases helem.symm.trans h
        complete := TypeTable.isComplete_of_parts helem rfl rfl
        sizeOf := TypeTable.sizeOf_flat helem rfl }
    split at hrun
    · rename_i s' hbuild
      have hruntime : s'.module.LeavesToRuntime := of_decide_eq_true hrun
      obtain ⟨elemPtr, long, ops, -, harray, hbehaves⟩ :=
        behaves_like_a_list (hlater.known hs₀)
          hplan hbuild (.refl _) hruntime (by decide)
      have hword : s'.module.types.get elem = .ok (.int 32) :=
        ((proceeds_build (hlater.known hs₀) hsources.2 hsources.1).run
          hbuild).1.module.types.get_of_isOpaque_eq_false helem rfl
      have hfits : ∀ i : Int64, normalizeInt i 32 = i → s'.module.types.Conforms elem (.int i) :=
        fun i => .int hword
      let st : MachineState :=
        ⟨⟨#[], ⟨List.replicate 24 0⟩, 1024, 0⟩, #[], .empty, "", 0, 0, .empty, []⟩
      have hzero : ∀ i < 3, 0 ∈
          (st.memory.readWord (fieldAt (UInt64.ofNat stackBase) i) 8).toOption := by decide +kernel
      refine ⟨s, s', ty, elem, hplan, hbuild, elemPtr, long, ops, st, ?_⟩
      refine hbehaves .standard (UInt64.ofNat stackBase) st _ ⟨by decide, by decide⟩
        ⟨true, by decide, by decide, by decide, by simp⟩
        (fun i hi => mem_toOption_iff.1 (hzero i hi)) ?_
      simp only [List.forall_mem_cons, Action.Fits]
      exact ⟨hfits 7 (by decide), hfits 8 (by decide), trivial, trivial, trivial, by simp⟩
    · cases hrun
  · cases hrun

end DynamicArray

end SsaCompiler
