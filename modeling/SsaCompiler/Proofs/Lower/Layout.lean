/-
# The layout of structures in whole compilations

No structure ever is a field of itself, and alignments and sizes come to an end unless a structure
was given a field that had been given the structure before, when it was still without body. Without
members that are instances of templates, apart from arrays, they always do.

Sizes become constants of the code. Such a constant is the size in the finished module when the
type is known in all its parts at the time.
-/

import SsaCompiler.Proofs.Lower.Agreement.Order

namespace SsaCompiler

open Relation

namespace Compilation

variable {c c' : Compilation}

/-! ### Cycles -/

/-- However many trees were lowered, with or without reports, no structure of the module is one of
its own fields. Moreover no type holds a whole value of itself, and alignments and sizes come to
an end for all types, unless a structure has been given a field that already held the structure.
The check of members only sees fields that are the structure itself. No structure is given such a
field when the members of objects and templates are no instances, apart from arrays: instances may
then be asked for anywhere in the code, but not while an object waits for its members. -/
theorem isAcyclic_or_closesCycle (h : c.IsBuilt) :
    c.module.types.IsIrreflexive ∧
      (c.module.types.IsAcyclic ∧
          (∀ id, c.module.types.alignOf id ≠ .error .endless ∧
            c.module.types.sizeOf id ≠ .error .endless) ∨
        TypeTable.empty.ClosesCycle c.module.types) ∧
      (c.HasSimpleMembers → c.module.types.IsAcyclic ∧
        ∀ id, c.module.types.alignOf id ≠ .error .endless ∧
          c.module.types.sizeOf id ≠ .error .endless) := by
  refine ⟨h.develops.isIrreflexive TypeTable.isIrreflexive_empty, ?_, fun hsimple =>
    ⟨hsimple.isAcyclic, hsimple.isAcyclic.ne_endless⟩⟩
  obtain ⟨-, hacyclic | hclosed⟩ := h.develops.isAcyclic_or_closes
  · exact .inl ⟨hacyclic, hacyclic.ne_endless⟩
  · exact .inr hclosed

/-- A template whose member has the type of its parameter, and an object with a member that is an
instance of the template for the object itself. -/
def boxProgram : Node :=
  let node (id : Nat) (kind : NodeKind Node) : Node := ⟨id, .unknown, kind⟩
  let box := node 0 (.template ⟨⟨3⟩, [⟨2⟩], [⟨⟨4⟩, .named ⟨2⟩⟩], []⟩)
  let object := node 1 (.object ⟨⟨5⟩, [⟨⟨6⟩, .generic ⟨3⟩ [.named ⟨5⟩]⟩], []⟩)
  node 2 (.module [box, object])

/-- The compilation in which the program has been read. -/
def boxCompilation : Compilation := reading "box" #["Box", "item", "A", "box"]

/-- Nothing is reported, but the object contains the instance and the instance the object. -/
theorem not_isAcyclic_of_lower_boxProgram : ∃ outcome c',
    boxCompilation.lower (some boxProgram) = .ok (.ok outcome, c') ∧ outcome.errorCount = 0 ∧
      ¬ c'.module.types.IsAcyclic := by
  have hrun : ∃ outcome c', boxCompilation.lower (some boxProgram) = .ok (.ok outcome, c') ∧
      outcome.errorCount = 0 ∧
      c'.module.types.get ⟨0⟩ = .ok (.named "A" (some [⟨1⟩])) ∧
      c'.module.types.get ⟨1⟩ = .ok (.named "Box<A>" (some [⟨0⟩])) :=
    exists_of_leaves (by decide +kernel)
  obtain ⟨outcome, c', hlower, hcount, hobject, hinstance⟩ := hrun
  refine ⟨outcome, c', hlower, hcount, fun hacyclic => hacyclic ⟨0⟩ ?_⟩
  exact .tail (.single ⟨_, hobject, List.mem_cons_self⟩) ⟨_, hinstance, List.mem_cons_self⟩

/-- An object with an array of such objects. -/
def treeProgram : Node :=
  let node (id : Nat) (kind : NodeKind Node) : Node := ⟨id, .unknown, kind⟩
  let tree := node 0 (.object ⟨⟨3⟩, [⟨⟨4⟩, .array (.named ⟨3⟩)⟩, ⟨⟨5⟩, .prim .long⟩], []⟩)
  node 1 (.module [tree])

/-- The compilation in which the program has been read. -/
def treeCompilation : Compilation := reading "tree" #["Tree", "kids", "key"]

/-- The types of both programs develop. The first one has a member that is an instance and the second
one an array, which may hold objects of the kind that has it. -/
theorem isAcyclic_or_closesCycle_boxProgram :
    (∃ c', c'.IsBuilt ∧
      (∃ outcome, boxCompilation.lower (some boxProgram) = .ok (outcome, c')) ∧
        c'.module.types.IsIrreflexive ∧
          (c'.module.types.IsAcyclic ∧
              (∀ id, c'.module.types.alignOf id ≠ .error .endless ∧
                c'.module.types.sizeOf id ≠ .error .endless) ∨
            TypeTable.empty.ClosesCycle c'.module.types)) ∧
      ∃ outcome c', treeCompilation.lower (some treeProgram) = .ok (.ok outcome, c') ∧
        outcome.errorCount = 0 ∧ c'.HasSimpleMembers ∧ c'.module.types.IsAcyclic := by
  obtain ⟨boxed, c₁, hbox, -⟩ : ∃ outcome c',
      boxCompilation.lower (some boxProgram) = .ok (.ok outcome, c') ∧ outcome.errorCount = 0 :=
    exists_of_leaves (by decide +kernel)
  obtain ⟨planted, c₂, htree, hcount⟩ : ∃ outcome c',
      treeCompilation.lower (some treeProgram) = .ok (.ok outcome, c') ∧ outcome.errorCount = 0 :=
    exists_of_leaves (by decide +kernel)
  have hbuilt : c₁.IsBuilt := .lower (isBuilt_reading "box" _) hbox
  have hname : treeCompilation.names.IsIdentifier ⟨3⟩ :=
    ⟨"Tree", Checked.at_eq_ok_iff.2 (by decide +kernel), by decide, by decide, by decide⟩
  have hroot : treeProgram.Everywhere (NodeKind.HasSimpleMembers treeCompilation.names) := by
    simp [treeProgram, Node.everywhere_mk_iff, NodeKind.children, NodeKind.HasSimpleMembers,
      TypeExpr.IsSimple, hname]
  have hread : treeCompilation.HasSimpleMembers :=
    (IsMadeOf.new .standard "tree").read (Names.grow_append _ _)
  have hsimple : c₂.HasSimpleMembers := IsMadeOf.lower hread (fun _ heq => by cases heq; exact hroot) htree
  obtain ⟨hirreflexive, hboth, -⟩ := isAcyclic_or_closesCycle hbuilt
  obtain ⟨-, -, hacyclic⟩ := isAcyclic_or_closesCycle (IsMadeOf.isBuilt hsimple)
  exact ⟨⟨c₁, hbuilt, ⟨_, hbox⟩, hirreflexive, hboth⟩, planted, c₂, htree, hcount, hsimple,
    (hacyclic hsimple).1⟩

end Compilation

/-! ### Sizes -/

/-- A value is the number of bytes of a type, or a least number, in a module and ever after. -/
def Module.HoldsSize (m : Module) (least : Nat) (v : ValueId) (ty : TypeId) : Prop :=
  ∀ m', m.Evolves m' → ∃ size, m'.types.sizeOf ty = .ok size ∧
    m'.constIntValue v = .ok (some (Lower.sizeWord (max size least)))

theorem Module.HoldsSize.mono {m m' : Module} {least : Nat} {v : ValueId} {ty : TypeId}
    (h : m.HoldsSize least v ty) (hm : m.Evolves m') : m'.HoldsSize least v ty :=
  fun m'' hm' => h m'' (hm.trans hm')

namespace Lower

variable {m m' : Module} {s s' : Lowering} {ty : TypeId} {v : ValueId}

/-- A word of full width is in normal form. -/
theorem normalizeInt_long (w : Int64) : normalizeInt w 64 = w := by
  simp [normalizeInt]

/-- The constant for the size of a type that is known in all its parts. -/
theorem holdsSize_constInt {long : TypeId} {size least : Nat}
    (hlong : m.types.get long = .ok (.int 64)) (hcomplete : m.types.IsComplete ty)
    (hsize : m.types.sizeOf ty = .ok size)
    (h : Build.constInt long (sizeWord (max size least)) m = .ok (v, m')) :
    m'.HoldsSize least v ty := by
  rw [Build.constInt_run hlong] at h
  cases h
  intro m' hlater
  have hbefore := (Module.Change.value m long _).evolves.trans hlater
  refine ⟨size, hcomplete.sizeOf_eq hbefore.types hsize, ?_⟩
  have hvalue : m'.value m.nextValue = _ := hlater.value (Checked.at_push_size m.values _)
  rw [Module.constIntValue, hvalue, normalizeInt_long]
  rfl

/-- The constant for the size of a type that is known in all its parts, as a `long`. -/
theorem holdsSize_constLong {size least : Nat} (hcomplete : m.types.IsComplete ty)
    (hsize : m.types.sizeOf ty = .ok size)
    (h : constLong (sizeWord (max size least)) m = .ok (v, m')) : m'.HoldsSize least v ty := by
  obtain ⟨long, m₁, hlong, hconst⟩ := bind_eq_ok_iff.1 h
  have htypes := (Build.evolves hlong).types
  have hget : m₁.types.get long = .ok (.int 64) := by
    cases hlong
    exact Module.get_intern _ _
  exact holdsSize_constInt hget (hcomplete.mono htypes) (hcomplete.sizeOf_eq htypes hsize) hconst

/-- The size that is asked for when memory is needed. -/
theorem eq_of_allocationSize {n : Int64} (h : allocationSize ty m = .ok (n, m')) :
    m' = m ∧ ∃ size, m.types.sizeOf ty = .ok size ∧ n = sizeWord (max size 1) := by
  obtain ⟨size, m₁, hsize, hend⟩ := bind_eq_ok_iff.1 h
  obtain ⟨hsize, rfl⟩ := Build.ask_eq_ok_iff.1 hsize
  cases hend
  exact ⟨rfl, size, hsize, rfl⟩

/-- Between two states a support function is called, or at least the call is asked for, and its
last argument is the number of bytes of a type. -/
def CallsWithSize (s s' : Lowering) (f : SupportFunction) (ty : TypeId) : Prop :=
  ∃ id args size s₁ s₂ answer, s.Evolves s₁ ∧ s₁.module.functionByName? f.symbol = some id ∧
    (emitCall id (args ++ [size]) s₁ = .ok (answer, s₂) ∨
      (liftM (Build.call id (args ++ [size])) : Lower (Option ValueId)) s₁ = .ok (answer, s₂)) ∧
    s₂.Evolves s' ∧ s₁.module.HoldsSize 1 size ty

/-- The size for which new memory is asked. -/
theorem callsWithSize_of_heapAlloc (hs : s.Known) (h : heapAlloc ty s = .ok (v, s'))
    (hcomplete : s.module.types.IsComplete ty) : CallsWithSize s s' .calloc ty := by
  obtain ⟨calloc, s₁, hsupport, h⟩ := bind_eq_ok_iff.1 h
  obtain ⟨h₁, hcalloc⟩ := (gives_support .calloc hs).run hsupport
  have hs₁ := h₁.known hs
  obtain ⟨count, s₂, hcount, h⟩ := bind_eq_ok_iff.1 h
  have h₂ := Stepwise.later hs₁ hcount
  have hs₂ := h₂.known hs₁
  obtain ⟨n, s₃, hn, h⟩ := bind_eq_ok_iff.1 h
  obtain ⟨m₃, hn', rfl⟩ := Lower.build_eq_ok_iff.1 hn
  obtain ⟨rfl, size, hsize, rfl⟩ := eq_of_allocationSize hn'
  obtain ⟨sizeValue, s₄, hconst, h⟩ := bind_eq_ok_iff.1 h
  obtain ⟨m₄, hconst', rfl⟩ := Lower.build_eq_ok_iff.1 hconst
  have h₄ := Stepwise.later hs₂ hconst
  have hs₄ := h₄.known hs₂
  obtain ⟨raw, s₅, hcall, h⟩ := bind_eq_ok_iff.1 h
  have h₅ := Stepwise.later hs₄ hcall
  have hs₅ := h₅.known hs₄
  have hcomplete₂ := hcomplete.mono (h₁.trans h₂).module.types
  refine ⟨calloc, [count], sizeValue, _, s₅, raw, (h₁.trans h₂).trans h₄, ?_, .inl hcall, ?_,
    holdsSize_constLong hcomplete₂ hsize hconst'⟩
  · exact (h₂.trans h₄).module.functionByName? hcalloc
  · obtain ⟨ptrTy, s₆, hptr, h⟩ := bind_eq_ok_iff.1 h
    have h₆ := Stepwise.later hs₅ hptr
    cases raw with
    | some raw => exact h₆.trans (Stepwise.later (h₆.known hs₅) h)
    | none => exact h₆.trans (Stepwise.later (h₆.known hs₅) h)

/-- The size for which the array asks when its buffer grows. -/
theorem callsWithSize_of_appendBody {f : FunctionId} (hs : s.Known)
    (h : DynamicArray.appendBody f ty s = .ok ((), s')) (hcomplete : s.module.types.IsComplete ty) :
    CallsWithSize s s' .calloc ty := by
  obtain ⟨long, s₁, hlong, h⟩ := bind_eq_ok_iff.1 h
  have h₁ := Stepwise.later hs hlong
  have hs₁ := h₁.known hs
  have hlong' : s₁.module.types.get long = .ok (.int 64) := by
    obtain ⟨m₁, hlong, rfl⟩ := Lower.build_eq_ok_iff.1 hlong
    cases hlong
    exact Module.get_intern _ _
  obtain ⟨elemPtr, s₂, hptr, h⟩ := bind_eq_ok_iff.1 h
  have h₂ := Stepwise.later hs₁ hptr
  have hs₂ := h₂.known hs₁
  obtain ⟨n, s₃, hn, h⟩ := bind_eq_ok_iff.1 h
  obtain ⟨m₃, hn', rfl⟩ := Lower.build_eq_ok_iff.1 hn
  obtain ⟨rfl, size, hsize, rfl⟩ := eq_of_allocationSize hn'
  obtain ⟨b, s₄, hb, h⟩ := bind_eq_ok_iff.1 h
  have h₄ := Stepwise.later hs₂ hb
  have hs₄ := h₄.known hs₂
  obtain ⟨values, s₅, hvalues, h⟩ := bind_eq_ok_iff.1 h
  have h₅ := Stepwise.later hs₄ hvalues
  have hs₅ := h₅.known hs₄
  obtain ⟨capacity, s₆, hcapacity, h⟩ := bind_eq_ok_iff.1 h
  have h₆ := Stepwise.later hs₅ hcapacity
  have hs₆ := h₆.known hs₅
  -- The buffer is made behind the size, but from the same constant.
  obtain ⟨newData, s₁₀, hbuffer, h⟩ := bind_eq_ok_iff.1 h
  obtain ⟨sizeValue, s₇, hconst, hbuffer⟩ := bind_eq_ok_iff.1 hbuffer
  obtain ⟨m₇, hconst', rfl⟩ := Lower.build_eq_ok_iff.1 hconst
  have h₇ := Stepwise.later hs₆ hconst
  have hs₇ := h₇.known hs₆
  obtain ⟨calloc, s₈, hsupport, hbuffer⟩ := bind_eq_ok_iff.1 hbuffer
  obtain ⟨h₈, hcalloc⟩ := (gives_support .calloc hs₇).run hsupport
  have hs₈ := h₈.known hs₇
  obtain ⟨raw, s₉, hcall, hbuffer⟩ := bind_eq_ok_iff.1 hbuffer
  have h₉ := Stepwise.later hs₈ hcall
  have hs₉ := h₉.known hs₈
  have hsince := h₄.trans (h₅.trans h₆)
  have hbefore := (h₁.trans h₂).trans hsince
  have hholds : m₇.HoldsSize 1 sizeValue ty :=
    holdsSize_constInt ((h₂.trans hsince).module.types.get_of_isOpaque_eq_false hlong' rfl)
      (hcomplete.mono hbefore.module.types)
      ((hcomplete.mono (h₁.trans h₂).module.types).sizeOf_eq hsince.module.types hsize) hconst'
  refine ⟨calloc, [capacity], sizeValue, s₈, s₉, raw, hbefore.trans (h₇.trans h₈), hcalloc,
    .inr hcall, ?_, hholds.mono h₈.module⟩
  have hdata : s₉.Evolves s₁₀ := by
    cases raw with
    | none => exact Stepwise.later hs₉ hbuffer
    | some raw => exact Stepwise.later hs₉ hbuffer
  have hrest : Stepwise (do
      let oldData ← Build.load values.dataPtr
      DynamicArray.copyElements b values newData oldData
      DynamicArray.replaceBuffer b values newData oldData capacity
      DynamicArray.storeElement b values : Lower Unit) := inferInstance
  exact hdata.trans (hrest.later (hdata.known hs₉) h)

/-- The size for which a thrown value asks. -/
theorem callsWithSize_of_throwOperand {op : Operand} {span : Span} (hs : s.Known)
    (h : throwOperand op span s = .ok (some (), s')) (hty : op.ty s.module = .ok (ty, s.module))
    (hcomplete : s.module.types.IsComplete ty) : CallsWithSize s s' .allocateException ty := by
  obtain ⟨ty', m₁, hty', h⟩ := Attempt.bind_build h
  cases hty.symm.trans hty'
  obtain ⟨destructor, s₁, hdestructor, h⟩ := Attempt.bind_eq_some h
  have h₁ := Stepwise.later (x := (throwDestructor ty span).run) hs hdestructor
  have hs₁ := h₁.known hs
  obtain ⟨value, s₂, hvalue, h⟩ := Attempt.bind_lift h
  have h₂ := Stepwise.later hs₁ hvalue
  have hs₂ := h₂.known hs₁
  obtain ⟨allocate, s₃, hsupport, h⟩ := Attempt.bind_lift h
  obtain ⟨h₃, hallocate⟩ := (gives_support .allocateException hs₂).run hsupport
  have hs₃ := h₃.known hs₂
  obtain ⟨n, m₄, hn, h⟩ := Attempt.bind_build h
  obtain ⟨rfl, size, hsize, rfl⟩ := eq_of_allocationSize hn
  obtain ⟨sizeValue, m₅, hconst, h⟩ := Attempt.bind_build h
  have h₅ := Lowering.evolves_module (Build.progresses hconst)
  have hs₅ := h₅.known hs₃
  obtain ⟨raw, s₆, hcall, h⟩ := Attempt.bind_eq_some h
  have h₆ := Stepwise.later (x := emitCall allocate [sizeValue]) hs₅ hcall
  have hbefore := (h₁.trans h₂).trans h₃
  refine ⟨allocate, [], sizeValue, _, s₆, some raw, hbefore.trans h₅,
    h₅.module.functionByName? hallocate, .inl hcall, ?_,
    holdsSize_constLong (hcomplete.mono hbefore.module.types) hsize hconst⟩
  have hrest : Stepwise (do
      let slot ← Build.cast .bitcast raw (← Build.pointerType ty)
      Build.store value slot
      let descriptor ← typeDescriptor ty
      let _ ← OptionT.lift (callSupport .throwException [raw, descriptor, destructor])
      noteThrows [ty]
      Build.unreachable
      startDeadBlock : Attempt Unit).run :=
    .andThen fun _ => .andThen fun _ => .andThen fun _ => .andThen fun _ => inferInstance
  exact hrest.later (h₆.known hs₅) h

/-- The size that the source asks for. -/
theorem holdsSize_of_sizeOf {r : Recur} {expr : TypeExpr} {span : Span}
    {op : Operand} (h : r.sizeOf expr span s = .ok (some op, s')) :
    ∃ ty s₁, r.type span expr s = .ok (some ty, s₁) ∧
      (s₁.module.types.IsComplete ty → s'.module.HoldsSize 0 op.value ty) := by
  obtain ⟨ty, s₁, hty, h⟩ := Attempt.bind_eq_some h
  refine ⟨ty, s₁, hty, fun hcomplete => ?_⟩
  obtain ⟨size, m, hask, h⟩ := Attempt.bind_build h
  obtain ⟨hsize, rfl⟩ := Build.ask_eq_ok_iff.1 hask
  obtain ⟨v, m', hconst, h⟩ := Attempt.bind_build h
  cases h
  rw [← Nat.max_zero size] at hconst
  exact holdsSize_constLong hcomplete hsize hconst

/-- Sizes are final for the types that are known in all their parts when code is made for them.
What `sizeof` answers is the size of the type in the module at any later time, and the memory for
a new value, for a longer buffer of an array and for a thrown value has that size, or one byte for
a type without size. A type that gets its body later is the exception. -/
theorem sizes_are_final (r : Recur) [r.IsStepwise] (hs : s.Known)
    (hcomplete : s.module.types.IsComplete ty) :
    (∀ expr span op s', r.sizeOf expr span s = .ok (some op, s') →
      ∃ ty' s₁, r.type span expr s = .ok (some ty', s₁) ∧
        (s₁.module.types.IsComplete ty' → s'.module.HoldsSize 0 op.value ty')) ∧
    (∀ v s', heapAlloc ty s = .ok (v, s') → CallsWithSize s s' .calloc ty) ∧
    (∀ f s', DynamicArray.appendBody f ty s = .ok ((), s') → CallsWithSize s s' .calloc ty) ∧
    (∀ op span s', op.ty s.module = .ok (ty, s.module) →
      throwOperand op span s = .ok (some (), s') →
        CallsWithSize s s' .allocateException ty) :=
  ⟨fun _ _ _ _ h => holdsSize_of_sizeOf h,
    fun _ _ h => callsWithSize_of_heapAlloc hs h hcomplete,
    fun _ _ h => callsWithSize_of_appendBody hs h hcomplete,
    fun _ _ _ hty h => callsWithSize_of_throwOperand hs h hty hcomplete⟩

/-- A function into which instructions can be put. -/
def openFunction : Build Unit := do
  let word ← Build.intType 32
  let make ← Build.declareFunction "make" (← Build.functionType [] word false)
  Build.positionAtEnd (← Build.appendBlock make "entry")

/-- In the function memory is made for a word. -/
theorem sizes_are_final_word : ∃ s v s', s.Known ∧ s.module.types.IsComplete ⟨0⟩ ∧
    heapAlloc ⟨0⟩ s = .ok (v, s') ∧ CallsWithSize s s' .calloc ⟨0⟩ := by
  let c := Compilation.new .standard "word"
  have hrun : (match openFunction c.module with
      | .ok ((), m) =>
        (match heapAlloc ⟨0⟩ ⟨c.context, c.names, m, .new ⟨0⟩⟩ with
          | .ok _ => m.types.types[0]? == some (.int 32)
          | .error _ => false)
      | .error _ => false) = true := by decide +kernel
  split at hrun
  · rename_i m hopen
    have hstepwise : Stepwise openFunction := by
      unfold openFunction
      infer_instance
    have hknown : Lowering.Known ⟨c.context, c.names, m, .new ⟨0⟩⟩ :=
      (Compilation.known_new .standard "word").mono (fun _ _ h => h) (Build.evolves hopen)
    split at hrun
    · rename_i made hmade
      have hword : m.types.get ⟨0⟩ = .ok (.int 32) :=
        Checked.at_eq_ok_iff.2 (beq_iff_eq.1 hrun)
      have hcomplete : m.types.IsComplete ⟨0⟩ := TypeTable.isComplete_of_parts hword rfl rfl
      exact ⟨_, _, _, hknown, hcomplete, hmade,
        (sizes_are_final (.within 0) hknown hcomplete).2.1 _ _ hmade⟩
    · cases hrun
  · cases hrun

end Lower

namespace Compilation

/-- Nothing is reported, but the array asks for one byte where the object has thirty-two. -/
theorem calloc_of_lower_treeProgram : ∃ outcome c',
    treeCompilation.lower (some treeProgram) = .ok (.ok outcome, c') ∧ outcome.errorCount = 0 ∧
      c'.module.types.sizeOf ⟨0⟩ = .ok 32 ∧ c'.module.functionByName? "calloc" = some ⟨3⟩ ∧
      (c'.module.value ⟨31⟩).map (·.origin) = .ok (.instr (.call ⟨3⟩ [⟨27⟩, ⟨28⟩])) ∧
      c'.module.constIntValue ⟨28⟩ = .ok (some 1) :=
  exists_of_leaves (by decide +kernel)

/-! ### Names in templates

The members of a template are lowered while its parameters stand for the arguments of an instance.
The parameters are entered among the objects of the module, so they are also there for another
template that is first asked for on the way, and change its layout.
-/

/-- An object, a template with a member of that object's type, and a template whose parameter has
the name of the object and which contains an instance of the other template. A last object has a
member of either kind. -/
def captureProgram (outerFirst : Bool) : Node :=
  let node (id : Nat) (kind : NodeKind Node) : Node := ⟨id, .unknown, kind⟩
  let object := node 0 (.object ⟨⟨2⟩, [⟨⟨3⟩, .prim .long⟩], []⟩)
  let inner := node 1 (.template ⟨⟨4⟩, [⟨5⟩], [⟨⟨6⟩, .named ⟨2⟩⟩], []⟩)
  let outer := node 2 (.template ⟨⟨7⟩, [⟨2⟩], [⟨⟨8⟩, .generic ⟨4⟩ [.prim .int]⟩], []⟩)
  let first := ⟨⟨9⟩, .generic ⟨7⟩ [.prim .char]⟩
  let second := ⟨⟨10⟩, .generic ⟨4⟩ [.prim .int]⟩
  let uses := if outerFirst then [first, second] else [second, first]
  node 4 (.module [object, inner, outer, node 3 (.object ⟨⟨11⟩, uses, []⟩)])

/-- The compilation in which the program has been read. -/
def captureCompilation : Compilation :=
  reading "capture" #["x", "Inner", "U", "item", "Outer", "inner", "a", "b", "Use"]

/-- Nothing is reported, but the instance of the inner template has one byte when it is first asked
for inside the outer one, and eight bytes when it is first asked for by the object. -/
theorem layouts_of_lower_captureProgram :
    (∃ outcome c', captureCompilation.lower (some (captureProgram true)) = .ok (.ok outcome, c') ∧
      outcome.errorCount = 0 ∧ c'.context.templates.instance? ⟨4⟩ [⟨5⟩] = some ⟨6⟩ ∧
      c'.module.types.get ⟨5⟩ = .ok (.int 32) ∧
      c'.module.types.get ⟨6⟩ = .ok (.named "Inner<int>" (some [⟨3⟩])) ∧
      c'.module.types.get ⟨3⟩ = .ok (.int 8) ∧ c'.module.types.sizeOf ⟨6⟩ = .ok 1) ∧
    ∃ outcome c', captureCompilation.lower (some (captureProgram false)) = .ok (.ok outcome, c') ∧
      outcome.errorCount = 0 ∧ c'.context.templates.instance? ⟨4⟩ [⟨3⟩] = some ⟨4⟩ ∧
      c'.module.types.get ⟨3⟩ = .ok (.int 32) ∧
      c'.module.types.get ⟨4⟩ = .ok (.named "Inner<int>" (some [⟨0⟩])) ∧
      c'.module.types.get ⟨0⟩ = .ok (.named "T" (some [⟨1⟩])) ∧
      c'.module.types.sizeOf ⟨4⟩ = .ok 8 :=
  ⟨exists_of_leaves (by decide +kernel), exists_of_leaves (by decide +kernel)⟩

end Compilation

end SsaCompiler
