/-
# The operators of the dynamic array

The three operators that come with an array type are functions whose blocks are made first and
then taken up one after the other, in the order in which they were made. They are written while
another function may be under way, so the state around them is the one of that function.
-/

import SsaCompiler.Proofs.ControlFlow.Declaration

namespace SsaCompiler

open Lower

namespace DynamicArray

variable {m : Module} {f : FunctionId} {blocks rest : List BlockId}
  {func : Option FunctionState} {bindings : Table Name VarBinding}

instance (key : OperatorKey) (params : List ParamSig) (ret : TypeId) (retRef : Bool) :
    Quiet m (declareOperator key params ret retRef).run (OnSome fun _ _ => True) := by
  unfold declareOperator
  exact .andThen fun _ _ _ _ => .andThen fun _ _ _ _ => .some fun _ => trivial

/-- Code of the operator is being written while another function is under way. -/
abbrev Writing (func : Option FunctionState) (bindings : Table Name VarBinding) (f : FunctionId)
    (blocks : List BlockId) : Lowering → Prop :=
  Lowering.Holding func bindings (Module.Writing f blocks)

/-- The current block of the operator has ended. -/
abbrev Resting (func : Option FunctionState) (bindings : Table Name VarBinding)
    (blocks : List BlockId) : Lowering → Prop :=
  Lowering.Holding func bindings (Module.Resting blocks)

instance (buffer : ValueId) [m.Avail (some f) buffer] :
    Leads m (Writing func bindings f blocks) (freeBuffer buffer)
      (fun _ => Writing func bindings f blocks) fun _ _ => True := by
  unfold freeBuffer
  refine .bind fun _ _ _ _ => .bind ?_
  intro raw m₁ _ hraw
  exact .bind fun _ _ _ _ => inferInstance

/-! ### Indexing -/

instance (f : FunctionId) : Leads m (Resting func bindings blocks) (indexBody f)
    (fun _ => Resting func bindings blocks) fun _ _ => True := by
  unfold indexBody
  refine .bind fun _ _ _ _ => .bind ?_
  rintro entry m₁ _ ⟨hentry, _⟩
  refine .bind ?_
  rintro outOfBounds m₂ _ ⟨hout, _⟩
  refine .bind ?_
  rintro inBounds m₃ _ ⟨hin, _⟩
  refine .takeUpElsewhere f (inBounds :: outOfBounds :: blocks) (by grind) (by grind) fun m₄ _ => ?_
  refine .bind ?_
  intro array m₅ _ harray
  refine .bind ?_
  intro index m₆ _ hindex
  refine .bind ?_
  intro lengthPtr m₇ _ hlengthPtr
  refine .bind ?_
  intro length m₈ _ hlength
  refine .bind ?_
  intro zero m₉ _ hzero
  refine .bind ?_
  intro negative m₁₀ _ hnegative
  refine .bind ?_
  intro behind m₁₁ _ hbehind
  refine .bind ?_
  intro bad m₁₂ _ hbad
  refine .bind fun _ m₁₃ _ _ => ?_
  refine .takeUpElsewhere f (inBounds :: blocks) (by grind) (by grind) fun m₁₄ _ => ?_
  refine .bind fun _ _ _ _ => .bind fun _ _ _ _ => .bind fun _ m₁₅ _ _ => ?_
  refine .takeUpElsewhere f blocks (by grind) (by grind) fun m₁₆ _ => ?_
  refine .bind ?_
  intro dataPtr m₁₇ _ hdataPtr
  refine .bind ?_
  intro buffer m₁₈ _ hbuffer
  refine .bind ?_
  intro slot m₁₉ _ hslot
  infer_instance

instance (ty elem : TypeId) :
    Leads m (Resting func bindings blocks) (buildIndex ty elem).run
      (fun _ => Resting func bindings blocks) (OnSome fun _ _ => True) := by
  unfold buildIndex
  exact .andThen fun _ _ _ _ => .andTry fun _ _ _ _ => .last inferInstance

/-! ### Appending -/

/-- The blocks of the operator that adds an element belong to it. -/
class AppendBlocks.In (b : AppendBlocks) (m : Module) (f : FunctionId) : Prop where
  entry : m.HasBlock f b.entry
  grow : m.HasBlock f b.grow
  first : m.HasBlock f b.first
  double : m.HasBlock f b.double
  alloc : m.HasBlock f b.alloc
  copyCond : m.HasBlock f b.copyCond
  copyBody : m.HasBlock f b.copyBody
  copyDone : m.HasBlock f b.copyDone
  freeOld : m.HasBlock f b.freeOld
  commit : m.HasBlock f b.commit
  push : m.HasBlock f b.push

attribute [instance] AppendBlocks.In.entry AppendBlocks.In.grow AppendBlocks.In.first
  AppendBlocks.In.double AppendBlocks.In.alloc AppendBlocks.In.copyCond AppendBlocks.In.copyBody
  AppendBlocks.In.copyDone AppendBlocks.In.freeOld AppendBlocks.In.commit AppendBlocks.In.push

instance (priority := low) {m' : Module} {b : AppendBlocks} [m.Extends m'] [b.In m f] :
    b.In m' f :=
  ⟨inferInstance, inferInstance, inferInstance, inferInstance, inferInstance, inferInstance,
    inferInstance, inferInstance, inferInstance, inferInstance, inferInstance⟩

/-- The values that its blocks share are available in it. -/
class AppendValues.In (v : AppendValues) (m : Module) (f : FunctionId) : Prop where
  array : m.Avail (some f) v.array
  value : m.Avail (some f) v.value
  counter : m.Avail (some f) v.counter
  dataPtr : m.Avail (some f) v.dataPtr
  lengthPtr : m.Avail (some f) v.lengthPtr
  capacityPtr : m.Avail (some f) v.capacityPtr
  length : m.Avail (some f) v.length
  capacity : m.Avail (some f) v.capacity
  zero : m.Avail (some f) v.zero
  one : m.Avail (some f) v.one

attribute [instance] AppendValues.In.array AppendValues.In.value AppendValues.In.counter
  AppendValues.In.dataPtr AppendValues.In.lengthPtr AppendValues.In.capacityPtr
  AppendValues.In.length AppendValues.In.capacity AppendValues.In.zero AppendValues.In.one

instance (priority := low) {m' : Module} {v : AppendValues} [m.Extends m'] [v.In m f] :
    v.In m' f :=
  ⟨inferInstance, inferInstance, inferInstance, inferInstance, inferInstance, inferInstance,
    inferInstance, inferInstance, inferInstance, inferInstance⟩

/-- The blocks of the operator in the order in which they are made and taken up. -/
def AppendBlocks.all (b : AppendBlocks) : List BlockId :=
  [b.entry, b.grow, b.first, b.double, b.alloc, b.copyCond, b.copyBody, b.copyDone, b.freeOld,
    b.commit, b.push]

instance (f : FunctionId) : Leads m (Module.Resting blocks) (appendBlocks f)
    (fun b => Module.Resting (b.all ++ blocks)) fun m b =>
      (b.all.Nodup ∧ ∀ c ∈ b.all, c ∉ blocks) ∧ b.In m f := by
  unfold appendBlocks
  refine .bind ?_
  rintro entry m₁ _ ⟨hentry, _⟩
  refine .bind ?_
  rintro grow m₂ _ ⟨hgrow, _⟩
  refine .bind ?_
  rintro first m₃ _ ⟨hfirst, _⟩
  refine .bind ?_
  rintro double m₄ _ ⟨hdouble, _⟩
  refine .bind ?_
  rintro alloc m₅ _ ⟨halloc, _⟩
  refine .bind ?_
  rintro copyCond m₆ _ ⟨hcopyCond, _⟩
  refine .bind ?_
  rintro copyBody m₇ _ ⟨hcopyBody, _⟩
  refine .bind ?_
  rintro copyDone m₈ _ ⟨hcopyDone, _⟩
  refine .bind ?_
  rintro freeOld m₉ _ ⟨hfreeOld, _⟩
  refine .bind ?_
  rintro commit m₁₀ _ ⟨hcommit, _⟩
  refine .bind ?_
  rintro push m₁₁ _ ⟨hpush, _⟩
  refine .pure (fun hs => hs.of_mem_iff fun c => ?_) fun _ => ⟨⟨?_, ?_⟩, ?_⟩
  · simp only [AppendBlocks.all, List.cons_append, List.nil_append, List.mem_cons]
    grind
  · simp only [AppendBlocks.all, List.nodup_cons, List.mem_cons] at *
    grind
  · simp only [AppendBlocks.all, List.forall_mem_cons]
    grind
  · exact ⟨inferInstance, inferInstance, inferInstance, inferInstance, inferInstance, inferInstance,
      inferInstance, inferInstance, inferInstance, inferInstance, inferInstance⟩

section

variable {long : TypeId} {b : AppendBlocks} {v : AppendValues} [b.In m f]

theorem appendEntry_leads (hentry : b.entry ∉ rest) :
    Leads m (Module.Resting (b.entry :: rest)) (appendEntry f long b)
      (fun _ => Module.Resting rest) fun m v => v.In m f := by
  unfold appendEntry
  refine Build.takeUp f rest (fun c => List.mem_cons) hentry fun m₁ _ => .bind ?_
  intro array m₂ _ harray
  refine .bind ?_
  intro value m₃ _ hvalue
  refine .bind ?_
  intro counter m₄ _ hcounter
  refine .bind ?_
  intro dataPtr m₅ _ hdataPtr
  refine .bind ?_
  intro lengthPtr m₆ _ hlengthPtr
  refine .bind ?_
  intro capacityPtr m₇ _ hcapacityPtr
  refine .bind ?_
  intro length m₈ _ hlength
  refine .bind ?_
  intro capacity m₉ _ hcapacity
  refine .bind ?_
  intro zero m₁₀ _ hzero
  refine .bind ?_
  intro one m₁₁ _ hone
  refine .bind ?_
  intro full m₁₂ _ hfull
  refine .bind fun _ m₁₃ _ _ => ?_
  exact .pure id fun _ => ⟨inferInstance, inferInstance, inferInstance, inferInstance,
    inferInstance, inferInstance, inferInstance, inferInstance, inferInstance, inferInstance⟩

variable [v.In m f]

theorem newCapacity_leads (hgrow : b.grow ∉ b.first :: b.double :: b.alloc :: rest)
    (hfirst : b.first ∉ b.double :: b.alloc :: rest) (hdouble : b.double ∉ b.alloc :: rest)
    (halloc : b.alloc ∉ rest) :
    Leads m (Module.Resting (b.grow :: b.first :: b.double :: b.alloc :: rest))
      (newCapacity long b v) (fun _ => Module.Writing f rest) fun m c => m.Avail (some f) c := by
  unfold newCapacity
  refine Build.takeUp f _ (fun c => List.mem_cons) hgrow fun m₁ _ => .bind ?_
  intro isEmpty m₂ _ hisEmpty
  refine .bind fun _ m₃ _ _ => ?_
  refine Build.takeUp f _ (fun c => List.mem_cons) hfirst fun m₄ _ => .bind ?_
  intro four m₅ _ hfour
  refine .bind fun _ m₆ _ _ => ?_
  refine Build.takeUp f _ (fun c => List.mem_cons) hdouble fun m₇ _ => .bind ?_
  intro two m₈ _ htwo
  refine .bind ?_
  intro doubled m₉ _ hdoubled
  refine .bind fun _ m₁₀ _ _ => ?_
  refine Build.takeUp f _ (fun c => List.mem_cons) halloc fun m₁₁ _ => ?_
  have : m₁₁.AllAvail (some f) ([(four, b.first), (doubled, b.double)].map Prod.fst) :=
    inferInstanceAs (Module.AllAvail _ _ [four, doubled])
  infer_instance

instance (elemPtr : TypeId) (elemSize : Int64) (capacity : ValueId)
    [m.Avail (some f) capacity] : Leads m (Writing func bindings f blocks)
      (newBuffer elemPtr long elemSize capacity) (fun _ => Writing func bindings f blocks)
      fun m v => m.Avail (some f) v := by
  unfold newBuffer
  refine .bind ?_
  intro size m₁ _ hsize
  refine .bind fun _ _ _ _ => .bind ?_
  intro raw m₂ _ hraw
  cases raw with
  | none => exact .imp inferInstance id id fun _ (hv : Module.Known _ _) => inferInstance
  | some raw =>
      have := hraw raw rfl
      infer_instance

theorem copyElements_leads {newData oldData : ValueId} [m.Avail (some f) newData]
    [m.Avail (some f) oldData] (hcond : b.copyCond ∉ b.copyBody :: rest)
    (hbody : b.copyBody ∉ rest) :
    Leads m (Module.Writing f (b.copyCond :: b.copyBody :: rest))
      (copyElements b v newData oldData) (fun _ => Module.Resting rest) fun _ _ => True := by
  unfold copyElements
  refine .bind fun _ m₁ _ _ => .bind fun _ m₂ _ _ => ?_
  refine Build.takeUp f _ (fun c => List.mem_cons) hcond fun m₃ _ => .bind ?_
  intro i m₄ _ hi
  refine .bind ?_
  intro more m₅ _ hmore
  refine .bind fun _ m₆ _ _ => ?_
  refine Build.takeUp f _ (fun c => List.mem_cons) hbody fun m₇ _ => .bind ?_
  intro source m₈ _ hsource
  refine .bind ?_
  intro moved m₉ _ hmoved
  refine .bind ?_
  intro target m₁₀ _ htarget
  refine .bind fun _ m₁₁ _ _ => .bind ?_
  intro next m₁₂ _ hnext
  exact .bind fun _ _ _ _ => inferInstance

theorem replaceBuffer_leads {newData oldData capacity : ValueId} [m.Avail (some f) newData]
    [m.Avail (some f) oldData] [m.Avail (some f) capacity]
    (hdone : b.copyDone ∉ b.freeOld :: b.commit :: rest) (hfree : b.freeOld ∉ b.commit :: rest)
    (hcommit : b.commit ∉ rest) :
    Leads m (Resting func bindings (b.copyDone :: b.freeOld :: b.commit :: rest))
      (replaceBuffer b v newData oldData capacity) (fun _ => Resting func bindings rest)
      fun _ _ => True := by
  unfold replaceBuffer
  refine .takeUpElsewhere f _ (fun c => List.mem_cons) hdone fun m₁ _ => .bind ?_
  intro hadBuffer m₂ _ hhadBuffer
  refine .bind fun _ m₃ _ _ => ?_
  refine .takeUpElsewhere f _ (fun c => List.mem_cons) hfree fun m₄ _ => ?_
  refine .bind fun _ m₅ _ _ => .bind fun _ m₆ _ _ => ?_
  refine .takeUpElsewhere f _ (fun c => List.mem_cons) hcommit fun m₇ _ => ?_
  exact .bind fun _ m₈ _ _ => .bind fun _ m₉ _ _ => inferInstance

theorem storeElement_leads (f : FunctionId) [b.In m f] [v.In m f] (hpush : b.push ∉ rest) :
    Leads m (Module.Resting (b.push :: rest)) (storeElement b v) (fun _ => Module.Resting rest)
      fun _ _ => True := by
  unfold storeElement
  refine Build.takeUp f _ (fun c => List.mem_cons) hpush fun m₁ _ => .bind ?_
  intro buffer m₂ _ hbuffer
  refine .bind ?_
  intro slot m₃ _ hslot
  refine .bind fun _ m₄ _ _ => .bind ?_
  intro grown m₅ _ hgrown
  exact .bind fun _ _ _ _ => inferInstance

end

instance (f : FunctionId) (elem : TypeId) :
    Leads m (Resting func bindings blocks) (appendBody f elem)
      (fun _ => Resting func bindings blocks) fun _ _ => True := by
  unfold appendBody
  refine .bind fun long _ _ _ => .bind fun _ _ _ _ => .bind fun _ _ _ _ => .bind ?_
  rintro b m₁ _ ⟨⟨hnodup, hfresh⟩, hb⟩
  simp only [AppendBlocks.all, List.nodup_cons, List.forall_mem_cons] at hnodup hfresh
  change Leads m₁ (Resting func bindings (b.entry :: b.grow :: b.first :: b.double :: b.alloc ::
    b.copyCond :: b.copyBody :: b.copyDone :: b.freeOld :: b.commit :: b.push :: blocks)) _ _ _
  refine .seq (elsewhere_leads (appendEntry_leads (by grind))) ?_
  intro v m₂ _ hv
  refine .seq (elsewhere_leads
    (newCapacity_leads (f := f) (by grind) (by grind) (by grind) (by grind))) ?_
  intro capacity m₃ _ hcapacity
  refine .bind ?_
  intro newData m₄ _ hnewData
  refine .bind ?_
  intro oldData m₅ _ holdData
  refine .seq (elsewhere_leads (copyElements_leads (by grind) (by grind))) fun _ m₆ _ _ => ?_
  refine .seq (replaceBuffer_leads (f := f) (by grind) (by grind) (by grind)) fun _ m₇ _ _ => ?_
  exact elsewhere_leads (storeElement_leads f (by grind))

instance (ty elem : TypeId) : Leads m (Resting func bindings blocks) (buildAppend ty elem).run
    (fun _ => Resting func bindings blocks) (OnSome fun _ _ => True) := by
  unfold buildAppend
  exact .andTry fun _ _ _ _ => .last inferInstance

/-! ### Deletion -/

instance (f : FunctionId) : Leads m (Resting func bindings blocks) (deleteBody f)
    (fun _ => Resting func bindings blocks) fun _ _ => True := by
  unfold deleteBody
  refine .bind fun _ _ _ _ => .bind ?_
  rintro entry m₁ _ ⟨hentry, _⟩
  refine .bind ?_
  rintro freeBlock m₂ _ ⟨hfree, _⟩
  refine .bind ?_
  rintro reset m₃ _ ⟨hreset, _⟩
  refine .takeUpElsewhere f (reset :: freeBlock :: blocks) (by grind) (by grind) fun m₄ _ => ?_
  refine .bind ?_
  intro array m₅ _ harray
  refine .bind ?_
  intro dataPtr m₆ _ hdataPtr
  refine .bind ?_
  intro lengthPtr m₇ _ hlengthPtr
  refine .bind ?_
  intro capacityPtr m₈ _ hcapacityPtr
  refine .bind ?_
  intro capacity m₉ _ hcapacity
  refine .bind ?_
  intro zero m₁₀ _ hzero
  refine .bind ?_
  intro hadBuffer m₁₁ _ hhadBuffer
  refine .bind fun _ m₁₂ _ _ => ?_
  refine .takeUpElsewhere f (reset :: blocks) (by grind) (by grind) fun m₁₃ _ => ?_
  refine .bind ?_
  intro buffer m₁₄ _ hbuffer
  refine .bind fun _ m₁₅ _ _ => .bind fun _ m₁₆ _ _ => ?_
  refine .takeUpElsewhere f blocks (by grind) (by grind) fun m₁₇ _ => ?_
  refine .bind fun _ _ _ _ => .bind ?_
  intro null m₁₈ _ hnull
  exact .bind fun _ _ _ _ => .bind fun _ _ _ _ => .bind fun _ _ _ _ => inferInstance

instance (ty : TypeId) : Leads m (Resting func bindings blocks) (buildDelete ty).run
    (fun _ => Resting func bindings blocks) (OnSome fun _ _ => True) := by
  unfold buildDelete
  exact .andThen fun _ _ _ _ => .andTry fun _ _ _ _ => .last inferInstance

/-! ### The array type -/

instance (ty elem : TypeId) : Quiet m (build ty elem) fun _ _ => True := by
  unfold build
  refine .bind fun _ _ _ _ => .ite inferInstance ?_
  refine .bind fun _ _ _ _ => .bind fun _ _ _ _ => .bind fun _ _ _ _ => .bind fun _ _ _ _ =>
    .bind fun _ _ _ _ => .bind fun _ _ _ _ => .bind fun _ m₁ _ _ => ?_
  refine .ite (Quiet.of_leads fun func bindings p blocks => ?_) (.pure fun _ => trivial)
  refine .seq position_leads ?_
  rintro here m₂ _ rfl
  refine .fromRest (.bind fun _ _ _ _ => .bind fun _ _ _ _ => .bind fun _ _ _ _ => ?_)
  infer_instance

end DynamicArray

end SsaCompiler
