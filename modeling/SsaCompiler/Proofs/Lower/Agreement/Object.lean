/-
# Objects get their members and their fields at once

An object is declared with a structure that has no body. It waits for its members until its layout
is known, whatever is declared in between: an instance that one of the members asks for gets a
structure of its own. Then it gets the members and its structure the fields, one for each.

This is so for objects of the program, for dynamic arrays and for instances of templates. While an
instance gets its members placeholders stand before some objects, but not before the object of the
instance, since the parameters of a template are identifiers.
-/

import SsaCompiler.Proofs.Lower.Agreement

namespace SsaCompiler

open Lower

variable {α β : Type} {ns : Names} {I : Lowering → Prop} {X : Set TypeId} {L : Leeway}
  {s s' : Lowering} {r : Recur} {name : Name} {ty : TypeId}

/-! ### Steps -/

namespace Respects

variable {Q : Lowering → β → Prop}

/-- Where no type may change none has changed behind a computation. -/
theorem settles {T : Lowering → α → Prop} {x : Lower α} (hx : Respects I ∅ T x s) :
    Respects I X (fun s' a => s.Settles ∅ s' ∧ T s' a) x s where
  run hs h := by
    obtain ⟨hsettles, hs', ha⟩ := hx.run hs h
    obtain ⟨hsettles', -, -⟩ := (hx.mono (Set.empty_subset X)).run hs h
    exact ⟨hsettles', hs', hsettles, ha⟩

variable [Lowering.ConcernsLayouts I]

/-- What is put together apart from the code of a function respects layouts. -/
theorem of_composed {x : Lower α} [hx : Composed (IsRespected I ∅) Leeway.free.nowhere x] :
    IsRespectful I X x s :=
  mono (hx.isRespectful fun _ hbinds => by cases hbinds) (Set.empty_subset X)

/-- A computation behind one of this kind. -/
theorem step {x : Lower α} {f : α → Lower β}
    [hx : Composed (IsRespected I ∅) Leeway.free.nowhere x]
    (hf : ∀ a s', s.Settles ∅ s' → I s' → Respects I X Q (f a) s') :
    Respects I X Q (x >>= f) s :=
  (settles of_composed).bind fun a s' _ hs' h => hf a s' h.1 hs'

/-- An attempt behind one of this kind. -/
theorem attempt {x : Attempt α} {f : α → Attempt β}
    [hx : Composed (IsRespected I ∅) Leeway.free.nowhere x.run]
    (hf : ∀ a s', s.Settles ∅ s' → I s' → (f a).Respects I X Q s') :
    (x >>= f).Respects I X Q s := by
  have hrun : x.Respects I X (fun s' _ => s.Settles ∅ s') s :=
    (settles of_composed).imp fun _ _ h _ _ => h.1
  exact hrun.bind fun a s' _ hs' h => hf a s' h hs'

end Respects

/-! ### Declarations of objects -/

/-- A new structure comes behind the types that are there, and it has no body. -/
theorem respects_namedStruct [Lowering.ConcernsLayouts I] (text : String) (s : Lowering) :
    Respects I X (fun s' ty => s'.context = s.context ∧ ty = ⟨s.module.types.size⟩ ∧
      s'.module.types.get ty = .ok (.named text none) ∧
        s.module.types.SameBodies s'.module.types)
      (liftM (Build.namedStruct text) : Lower TypeId) s where
  run hs h := by
    obtain ⟨hsettles, hs', -⟩ := (Respects.build (Build.namedStruct text)).run hs h
    obtain ⟨m, hrun, rfl⟩ := build_eq_ok_iff.1 h
    have htypes := (Build.Moves.run (R := Module.Edits) hrun).sameBodies
    cases hrun
    exact ⟨hsettles, hs', rfl, rfl, Checked.at_push_size _ _, htypes⟩

/-- A type that is entered by its components is there. -/
theorem respects_internType [Lowering.ConcernsLayouts I] (u : IrType) (hu : u.description? = some u) :
    Respects I X (fun s' id => s'.module.types.get id = .ok u)
      (liftM (Build.internType u hu) : Lower TypeId) s where
  run hs h := by
    obtain ⟨hsettles, hs', -⟩ := (Respects.build (Build.internType u hu)).run hs h
    obtain ⟨m, hrun, rfl⟩ := build_eq_ok_iff.1 h
    cases hrun
    exact ⟨hsettles, hs', Module.get_intern _ _⟩

/-- An object with a new structure waits for its members. -/
theorem respects_declareNew {text : String} (hname : s.context.symbols.objects.get? name = none)
    (hbyType : s.context.symbols.byType.get? ty = none)
    (hty : s.module.types.get ty = .ok (.named text none)) :
    Respects (Lowering.Agrees ns) X (fun s' _ => s'.Awaits name ty)
      (modifySymbols (·.declareObject (.new name ty))) s where
  run hs h := by
    cases h
    have hnew := (s.context.symbols.get?_declareObject name ty name).trans (if_pos rfl)
    exact ⟨⟨SymbolTable.persists_declareObject hname hbyType, .refl X _, .refl _, rfl⟩,
      ⟨hs.symbols.declareObject hty hbyType, hs.templates, hs.names⟩,
      ⟨_, hnew, rfl, rfl⟩, text, hty⟩

/-- A name that is found stands for an object with the type. -/
theorem respects_namedType (name : Name) (declaring : Bool) (span : Span) (s : Lowering) :
    (namedType name declaring span).Respects (Lowering.Agrees ns) X (fun s' ty => ∃ info,
      s'.context.symbols.objects.get? name = some info ∧ info.ty = ty) s := by
  unfold namedType
  refine (Attempt.Maintains.lift .symbols).bind fun table s₁ _ hs₁ hsame => ?_
  obtain ⟨rfl, rfl⟩ := hsame
  split
  · rename_i info hinfo
    exact .pure ⟨info, hinfo, rfl⟩
  · rename_i hname
    refine (Attempt.Maintains.lift (.nameText name)).bind fun text s₂ _ hs₂ hsame => ?_
    obtain ⟨rfl, -⟩ := hsame
    refine (Attempt.Maintains.lift .get).bind fun a s₃ _ hs₃ hsame => ?_
    obtain ⟨rfl, rfl⟩ := hsame
    split
    · exact .reject (Respects.report ..)
    · split
      · refine (Attempt.Maintains.lift (respects_namedStruct text a)).bind
          fun ty s₄ h₄ hs₄ hnew => ?_
        obtain ⟨hcontext, rfl, hty, -⟩ := hnew
        have hbyType := hs₃.symbols.byType_eq_none a.module.types.get_size_ne_ok
        rw [← hcontext] at hname hbyType
        refine (Attempt.Maintains.lift (respects_declareNew hname hbyType hty)).bind
          fun _ s₅ _ _ hawaits => .pure ?_
        obtain ⟨info, hinfo, hsame, -⟩ := hawaits.object
        exact ⟨info, hinfo, hsame⟩
      · exact .reject (Respects.report ..)

instance (name : Name) (declaring : Bool) (span : Span) :
    Composed (IsRespected (Lowering.Agrees ns) X) L (namedType name declaring span).run :=
  .part fun s _ => (respects_namedType name declaring span s).unit

/-- Children of a node respect layouts inside a function, and types do so wherever they are looked
up. -/
class Recur.IsRespectful (r : Recur) (I : Lowering → Prop) : Prop where
  operand : ∀ node (s : Lowering), s.pass.func.isSome →
    SsaCompiler.IsRespectful I ∅ (r.operand node) s
  condition : ∀ cond thenTo elseTo (s : Lowering), s.pass.func.isSome →
    SsaCompiler.IsRespectful I ∅ (r.condition cond thenTo elseTo) s
  type : ∀ span ty (s : Lowering), SsaCompiler.IsRespectful I ∅ (r.type span ty).run s

instance [hr : r.IsRespectful I] : r.HasTypes (IsRespected I X) where
  type span ty := .part fun s _ => .mono (hr.type span ty s) (Set.empty_subset X)

instance [hr : r.IsRespectful I] : r.HasParts (IsRespected I ∅) where
  operand {_} hL node := .part fun s hs => hr.operand node s (hs rfl hL.binds)
  condition {_} hL cond thenTo elseTo := .part fun s hs =>
    hr.condition cond thenTo elseTo s (hs rfl hL.binds)

/-- Types respect layouts where instances of templates do. -/
theorem isRespectful_type (hr : ∀ name args span (s : Lowering),
      IsRespectful (Lowering.Agrees ns) ∅ (r.instantiate name args span) s)
    (span : Span) (ty : TypeExpr) (s : Lowering) :
    IsRespectful (Lowering.Agrees ns) ∅ (r.type span ty).run s := by
  have (L : Leeway) (name : Name) (args : List TypeId) (span : Span) :
      Composed (IsRespected (Lowering.Agrees ns) ∅) L (r.instantiate name args span) :=
    .part fun s _ => hr name args span s
  have := composed_type (P := IsRespected (Lowering.Agrees ns) ∅) (L := Leeway.free.nowhere) r span ty
  exact Respects.of_composed

/-! ### Members -/

/-- What is left behind when an object that waits for its members has got them. -/
theorem completeObject_eq_ok {members : List (Name × TypeId)} {u : Unit} (hs : s.Agrees ns)
    (hawaits : s.Awaits name ty) (h : completeObject ty members s = .ok (u, s')) : ∃ types,
      ∃ hset : s.module.types.setStructBody ty (members.map Prod.snd) = .ok (true, types),
        s' = { s with
          context := { s.context with symbols := s.context.symbols.modifyByType ty fun info =>
            { info with members := members, complete := true } }
          module := s.module.withTypes types (s.module.typesIndexed.setStructBody hset) } := by
  unfold completeObject at h
  obtain ⟨done, s₁, hset, h⟩ := bind_eq_ok_iff.1 h
  obtain ⟨m, hrun, rfl⟩ := build_eq_ok_iff.1 hset
  obtain ⟨types, htypes, rfl⟩ := Build.setStructBody_eq_ok hrun
  obtain ⟨text, hopaque⟩ := hawaits.noBody
  obtain ⟨filled, hfilled⟩ := TypeTable.setStructBody_of_opaque hopaque (members.map Prod.snd)
  cases htypes.symm.trans hfilled
  obtain ⟨info, hinfo, rfl, hplain⟩ := hawaits.object
  rw [bind_of_ok (symbols_apply _)] at h
  dsimp only at h
  rw [hs.symbols.objectByType? hinfo hplain] at h
  cases h
  exact ⟨types, htypes, rfl⟩

/-- An object that waits for its members gets them. -/
theorem isRespectful_completeObject {members : List (Name × TypeId)} (hawaits : s.Awaits name ty)
    (hmembers : (members.map Prod.fst).Nodup) :
    IsRespectful (Lowering.Agrees ns) {ty} (completeObject ty members) s where
  run {u s'} hs h := by
    obtain ⟨types, htypes, rfl⟩ := completeObject_eq_ok hs hawaits h
    obtain ⟨hagrees, hpersists, hkeeps⟩ := hs.symbols.complete_object hawaits hmembers htypes
    exact ⟨⟨hpersists, hkeeps, .refl _, rfl⟩, ⟨hagrees, hs.templates, hs.names⟩, trivial⟩

section

variable [Lowering.ConcernsLayouts I] {T : Lowering → TypeId → Prop} {span : Span}
  (hlater : ∀ (s s' : Lowering) ty, s.Settles ∅ s' → T s ty → T s' ty)

include hlater

/-- A member gets a name that no other one has and another type than its object. -/
theorem respects_memberType {known : List (Name × TypeId)} {field : Field}
    (htype : ∀ s, (r.type span field.ty).Respects I ∅ T s) :
    (r.memberType ty known field span).Respects I ∅
      (fun s' fieldTy => field.name ∉ known.map Prod.fst ∧ T s' fieldTy ∧ fieldTy ≠ ty) s := by
  unfold Recur.memberType
  refine (htype s).bind fun fieldTy s₁ _ hs₁ hfield => ?_
  refine (Attempt.Maintains.lift (.nameText field.name)).bind fun text s₂ h₂ _ hsame => ?_
  split
  · exact Respects.attempt fun owner s₃ _ _ => .reject (Respects.report ..)
  · rename_i hother
    split
    · exact .reject (Respects.report ..)
    · rename_i hnew
      refine .pure ⟨fun hmem => hnew ?_, hlater _ _ _ h₂ hfield, hother⟩
      obtain ⟨entry, hentry, hname⟩ := List.mem_map.1 hmem
      exact List.any_eq_true.2 ⟨entry, hentry, decide_eq_true hname⟩

theorem respects_memberTypes (fields : List Field) (known : List (Name × TypeId)) {s : Lowering}
    (htype : ∀ field ∈ fields, ∀ s, (r.type span field.ty).Respects I ∅ T s)
    (hnames : (known.map Prod.fst).Nodup) (hknown : ∀ m ∈ known, T s m.2 ∧ m.2 ≠ ty) :
    Respects I ∅ (fun s' members =>
        (members.map Prod.fst).Nodup ∧ ∀ m ∈ members, T s' m.2 ∧ m.2 ≠ ty)
      (r.memberTypes ty span known fields) s := by
  induction fields generalizing known s with
  | nil => exact .pure ⟨hnames, hknown⟩
  | cons field rest ih =>
      obtain ⟨hfield, hrest⟩ := List.forall_mem_cons.1 htype
      unfold Recur.memberTypes
      refine Maintains.bind (respects_memberType hlater hfield) fun o s₁ h₁ _ ho => ?_
      have hknown₁ : ∀ m ∈ known, T s₁ m.2 ∧ m.2 ≠ ty := fun m hm =>
        ⟨hlater _ _ _ h₁ (hknown m hm).1, (hknown m hm).2⟩
      cases o with
      | none => exact ih known hrest hnames hknown₁
      | some fieldTy =>
          obtain ⟨hnew, hmember⟩ := ho fieldTy rfl
          refine ih _ hrest ?_ fun m hm => ?_
          · rw [List.map_append, List.map_singleton]
            exact List.nodup_append.2 ⟨hnames, List.nodup_singleton _, fun n hn n' hn' heq => by
              cases List.mem_singleton.1 hn'
              cases heq
              exact hnew hn⟩
          · rcases List.mem_append.1 hm with hm | hm
            · exact hknown₁ m hm
            · cases List.mem_singleton.1 hm
              exact hmember

end

section

variable [hr : r.IsRespectful (Lowering.Agrees ns)]

/-- The members of an object are looked up while it waits for them. -/
theorem isRespectful_layout {fields : List Field} {span : Span} (hawaits : s.Awaits name ty) :
    IsRespectful (Lowering.Agrees ns) {ty} (r.layout ty fields span) s := by
  unfold Recur.layout
  refine ((respects_memberTypes (T := fun _ _ => True) (fun _ _ _ _ _ => trivial) fields []
    (fun field _ s => .of_run (hr.type span field.ty s)) List.nodup_nil nofun).settles).bind
      fun members s₁ _ _ h => ?_
  exact isRespectful_completeObject (hawaits.mono h.1 (Set.notMem_empty ty)) h.2.1

/-- An object of the program is declared. A name that stands for something complete is rejected; any
other stands for an object that waits for its members. -/
theorem respects_declareObject (node : Nat) (decl : ObjectDecl Node) (span : Span) (s : Lowering) :
    (r.declareObject node decl span).Respects (Lowering.Agrees ns) .univ (fun _ _ => True) s := by
  unfold Recur.declareObject
  refine Respects.attempt fun isNew s₁ _ _ => ?_
  split
  · refine (respects_namedType decl.name true span s₁).bind fun ty s₂ _ hs₂ hty => ?_
    obtain ⟨info, hinfo, rfl⟩ := hty
    refine (Attempt.Maintains.lift .symbols).bind fun table s₃ _ hs₃ hsame => ?_
    obtain ⟨rfl, rfl⟩ := hsame
    have hobject : s₃.context.symbols.object? decl.name = some info := hinfo
    rw [hobject]
    dsimp only
    split
    · exact Respects.attempt fun text s₄ _ _ =>
        (Attempt.Maintains.reject (Q := fun _ _ => False) (Respects.report ..)).bind
          fun _ _ _ _ hfalse => hfalse.elim
    · rename_i hincomplete
      have hawaits := hs₃.awaits hinfo (by simpa using hincomplete)
      refine (Attempt.Maintains.lift ((isRespectful_layout hawaits).mono (Set.subset_univ _))).bind
        fun _ s₄ _ _ _ => ?_
      exact .lift Respects.of_composed
  · exact .pure trivial

/-- An object of the module. -/
theorem isRespectful_object (node : Nat) (decl : ObjectDecl Node) (span : Span) (s : Lowering) :
    IsRespectful (Lowering.Agrees ns) .univ (r.object node decl span) s := by
  unfold Recur.object
  refine (Maintains.state (·.pass.func)).bind fun f s₁ _ _ hsame => ?_
  split
  · exact Respects.report ..
  · exact (respects_declareObject node decl span s₁).unit.bind
      fun _ s₂ _ _ _ => Respects.of_composed

end

/-! ### The dynamic array -/

/-- An array that waits for its members gets them, and its operators: a pointer and two numbers. There
are no arrays of nothing: such an array goes on waiting. -/
theorem DynamicArray.respects_build [Lowering.ConcernsLayouts I] (elem : TypeId)
    (hcomplete : ∀ members s₁, s.Settles ∅ s₁ → (members.map Prod.fst).Nodup →
      (∀ m ∈ members, ∃ u, s₁.module.types.get m.2 = .ok u ∧ u.structName? = none ∧ u.parts = []) →
        IsRespectful I {ty} (completeObject ty members) s₁) :
    IsRespectful I {ty} (build ty elem) s := by
  unfold build
  refine Respects.step fun kind s₁ h₁ _ => ?_
  split
  · exact Respects.report ..
  · refine (respects_internType _ _).settles.bind fun elemPtr s₂ _ _ helemPtr => ?_
    refine (respects_internType _ _).settles.bind fun long s₃ _ _ hlong => ?_
    refine (Respects.intern "data").settles.bind fun data s₄ _ _ hdata => ?_
    refine (Respects.intern "len").settles.bind fun length s₅ _ _ hlength => ?_
    refine (Respects.intern "cap").settles.bind fun capacity s₆ _ _ hcapacity => ?_
    have hnumber := hdata.1.trans (hlength.1.trans hcapacity.1)
    have hlater := h₁.trans (helemPtr.1.trans (hlong.1.trans hnumber))
    have helemPtr := (hlong.1.trans hnumber).types.get (Set.notMem_empty _) helemPtr.2
    have hlong := hnumber.types.get (Set.notMem_empty _) hlong.2
    refine (hcomplete _ s₆ hlater ?_ ?_).bind fun _ s₇ _ _ _ => Respects.step fun table s₈ _ _ => ?_
    · have hdata := (hlength.1.trans hcapacity.1).names _ _ hdata.2
      have hlength := hcapacity.1.names _ _ hlength.2
      simp [Names.ne_of_text hdata hlength (by decide),
        Names.ne_of_text hdata hcapacity.2 (by decide),
        Names.ne_of_text hlength hcapacity.2 (by decide)]
    · intro m hm
      rcases List.mem_cons.1 hm with rfl | hm
      · exact ⟨_, helemPtr, rfl, rfl⟩
      · rcases List.mem_cons.1 hm with rfl | hm
        · exact ⟨_, hlong, rfl, rfl⟩
        · cases List.mem_singleton.1 hm
          exact ⟨_, hlong, rfl, rfl⟩
    · split
      · have := composed_buildOperators (P := IsRespected I ∅) (L := Leeway.free.nowhere) ty elem
        exact Respects.of_composed
      · exact .pure trivial

theorem DynamicArray.isRespectful_build (elem : TypeId) (hawaits : s.Awaits name ty) :
    IsRespectful (Lowering.Agrees ns) {ty} (build ty elem) s :=
  respects_build elem fun _ _ hsettles hnames _ =>
    isRespectful_completeObject (hawaits.mono hsettles (Set.notMem_empty ty)) hnames

/-! ### Instances of templates -/

section

variable [r.IsRespectful (Lowering.Agrees ns)]

/-- What is done for an instance while its parameters have a meaning. -/
theorem isRespectful_members {members : List Field} {methods : List (Option Node)} {span : Span}
    (hawaits : s.Awaits name ty) : IsRespectful (Lowering.Agrees ns) {ty} (do
      r.layout ty members span
      r.declareMembers ty methods
      r.defineMembers methods : Lower Unit) s :=
  (isRespectful_layout hawaits).bind fun _ _ _ _ _ =>
    Respects.step fun _ _ _ _ => Respects.of_composed

/-- The state in which the members of an instance are lowered, behind placeholders. -/
def Lowering.insideInstance (s : Lowering) (params : List (Name × TypeId)) : Lowering :=
  { s with
    context := { s.context with
      symbols := (SymbolTable.bindPlaceholders params s.context.symbols).2 }
    names := (s.names.intern "this").2
    pass := .new (s.names.intern "this").1 }

/-- The state behind an instance whose members have been lowered: what the placeholders hid is there
again, and everything else is as it was left. -/
structure Lowering.IsBehind (s s₁ s' : Lowering) : Prop where
  types : s'.module.types = s₁.module.types
  names : s'.names = s₁.names
  templates : s'.context.templates = s₁.context.templates
  objects : ∀ {name info}, s'.context.symbols.objects.get? name = some info →
    s.context.symbols.objects.get? name = some info ∨
      s₁.context.symbols.objects.get? name = some info

/-- An instance that waits for its members gets those of its template. No placeholder hides its
object, so the objects that are hidden have other types than the one that gets a body. -/
theorem fillDeclared_eq_ok {template : Template} {members : List Field}
    {methods : List (Option Node)} {args : List TypeId} {span : Span} {u : Unit} (hs : s.Agrees ns)
    (hawaits : s.Awaits name ty) (hparams : ∀ param ∈ template.params, param ≠ name)
    (h : r.fillDeclared ty template members methods args span s = .ok (u, s')) :
    ∃ s₁, (do
        r.layout ty members span
        r.declareMembers ty methods
        r.defineMembers methods : Lower Unit)
          (s.insideInstance (template.params.zip args)) = .ok ((), s₁) ∧
      (s.insideInstance (template.params.zip args)).Agrees ns ∧
      (s.insideInstance (template.params.zip args)).Awaits name ty ∧
      s.IsBehind s₁ s' ∧ s.Settles {ty} s' ∧ s'.Agrees ns := by
  unfold Recur.fillDeclared at h
  rw [bind_of_ok (bindPlaceholders_apply _ s), bind_of_ok (position_apply _)] at h
  obtain ⟨⟨⟩, s₂, hpass, h⟩ := bind_eq_ok_iff.1 h
  obtain ⟨s₁, hrun, rfl⟩ := asNewPass_eq_ok hpass
  rw [bind_of_ok (unbindPlaceholders_apply _ _)] at h
  have hothers : ∀ param ∈ template.params.zip args, param.1 ≠ name := fun param hparam =>
    hparams _ (List.of_mem_zip hparam).1
  have hgrow := s.names.grow_intern "this"
  have hinside : (s.insideInstance (template.params.zip args)).Agrees ns :=
    ⟨hs.symbols.bindPlaceholders _, hs.templates, hs.names.trans hgrow⟩
  have hwaiting : (s.insideInstance (template.params.zip args)).Awaits name ty :=
    SymbolTable.Awaits.bindPlaceholders hawaits hothers
  obtain ⟨hsettles, hs₁, -⟩ := (isRespectful_members hwaiting).run hinside hrun
  obtain ⟨info, hinfo, hty, hplain⟩ := hawaits.object
  obtain ⟨hagrees, hpersists, hobjects⟩ := hs.symbols.unbindPlaceholders hsettles.types
    (fun other hother param hparam => by
      rw [Set.mem_singleton_iff.1 hother, ← hty, hs.symbols.found hinfo hplain]
      exact fun heq => hothers param hparam (Option.some.inj heq).symm)
    hsettles.symbols hs₁.symbols
  cases h
  exact ⟨s₁, hrun, hinside, hwaiting, ⟨rfl, rfl, rfl, hobjects⟩,
    ⟨hpersists, hsettles.types, hgrow.trans hsettles.names, rfl⟩, hagrees, hs₁.templates, hs₁.names⟩

theorem isRespectful_fillDeclared {template : Template} (members : List Field)
    (methods : List (Option Node)) (args : List TypeId) (span : Span) (hawaits : s.Awaits name ty)
    (hparams : ∀ param ∈ template.params, param ≠ name) :
    IsRespectful (Lowering.Agrees ns) {ty} (r.fillDeclared ty template members methods args span) s where
  run hs h := by
    obtain ⟨s₁, -, -, -, -, hsettles, hs'⟩ := fillDeclared_eq_ok hs hawaits hparams h
    exact ⟨hsettles, hs', trivial⟩

theorem isRespectful_fillInstance {canonical : String} {template : Template} (args : List TypeId)
    (span : Span) (hawaits : s.Awaits name ty) (hparams : ∀ param ∈ template.params, param ≠ name) :
    IsRespectful (Lowering.Agrees ns) {ty} (r.fillInstance ty canonical template args span) s := by
  unfold Recur.fillInstance
  split
  · split
    · exact DynamicArray.isRespectful_build _ hawaits
    · exact Respects.of_composed
  · exact isRespectful_fillDeclared _ _ args span hawaits hparams

instance (name : Name) (args : List TypeId) (ty : TypeId) :
    Composed (IsRespected (Lowering.Agrees ns) X) L (recordInstance name args ty) :=
  .part fun _ _ => ⟨fun hs h => by
    cases h
    exact ⟨⟨.refl _, .refl X _, .refl _, rfl⟩, ⟨hs.symbols, hs.templates, hs.names⟩, trivial⟩⟩

/-- A new instance has a structure of its own, which gets its body here. -/
theorem isRespectful_newInstance {args : List TypeId} {template : Template} {span : Span}
    (hparams : ∀ param ∈ template.params, ns.IsIdentifier param) :
    IsRespectful (Lowering.Agrees ns) X (r.newInstance name args template span) s := by
  unfold Recur.newInstance
  refine Respects.step fun text s₁ _ _ => Respects.step fun argTexts s₂ _ _ => ?_
  refine (Respects.intern _).bind fun canonicalName s₃ _ hs₃ hcanonical => ?_
  refine Maintains.symbols.bind fun table s₄ _ _ hsame => ?_
  obtain ⟨rfl, rfl⟩ := hsame
  split
  · exact Respects.step fun _ _ _ _ => .pure trivial
  · rename_i hname
    have hothers : ∀ param ∈ template.params, param ≠ canonicalName := fun param hparam =>
      ((hparams param hparam).mono hs₃.names).ne hcanonical (by simp)
    refine Respects.of_new ?_ s₄.module.types.get_size_ne_ok
    refine (respects_namedStruct _ s₄).bind fun ty s₅ _ _ hnew => ?_
    obtain ⟨hcontext, rfl, hty, -⟩ := hnew
    have hbyType := hs₃.symbols.byType_eq_none s₄.module.types.get_size_ne_ok
    rw [← hcontext] at hname hbyType
    refine (respects_declareNew hname hbyType hty).bind fun _ s₆ _ _ hawaits => ?_
    refine Respects.step fun _ s₇ h₇ _ => ?_
    exact (isRespectful_fillInstance args span (hawaits.mono h₇ (Set.notMem_empty _)) hothers).bind
      fun _ _ _ _ _ => .pure trivial

/-- An instance that is asked for. -/
theorem isRespectful_instanceOf (name : Name) (args : List TypeId) (span : Span) (s : Lowering) :
    IsRespectful (Lowering.Agrees ns) X (r.instanceOf name args span).run s := by
  unfold Recur.instanceOf
  refine Maintains.unit ((Attempt.Maintains.lift .get).bind (T := fun _ _ => True)
    fun a s₁ _ hs₁ hsame => ?_)
  obtain ⟨rfl, rfl⟩ := hsame
  dsimp only
  split
  · exact .pure trivial
  · refine Respects.attempt fun text s₂ _ _ => ?_
    split
    · rename_i template htemplate
      exact .lift (isRespectful_newInstance (hs₁.templates htemplate))
    · split <;> exact .reject (Respects.report ..)

end

/-- A template is added, or it is rejected. -/
theorem respects_registerTemplate [Lowering.ConcernsLayouts I] {decl : TemplateDecl Node} (span : Span)
    (hinsert : ∀ (s : Lowering) table, I s → s.context.templates.insert
      ⟨decl.name, decl.params, .declared decl.members decl.methods⟩ = some table →
        I { s with context := { s.context with templates := table } }) (s : Lowering) :
    IsRespectful I X (registerTemplate decl span) s := by
  unfold registerTemplate
  refine (Maintains.state (·.pass.func)).bind fun f s₁ _ _ hsame => ?_
  split
  · exact Respects.report ..
  · refine Maintains.get.bind fun a s₂ _ _ hsame => ?_
    obtain ⟨rfl, rfl⟩ := hsame
    split
    · rename_i table htable
      refine ⟨fun hs h => ?_⟩
      cases h
      exact ⟨⟨.refl _, .refl X _, .refl _, rfl⟩, hinsert _ _ hs htable, trivial⟩
    · exact Respects.step fun text s₃ _ _ => Respects.report ..

/-- Templates go on having identifiers as parameters. -/
theorem Lowering.Agrees.insertTemplate {template : Template} {table : TemplateTable}
    (hs : s.Agrees ns) (hparams : ∀ param ∈ template.params, ns.IsIdentifier param)
    (hinsert : s.context.templates.insert template = some table) :
    Lowering.Agrees ns { s with context := { s.context with templates := table } } where
  symbols := hs.symbols
  templates hget := by
    rcases TemplateTable.eq_or_get?_of_insert hinsert hget with rfl | hold
    · exact hparams
    · exact hs.templates hold
  names := hs.names

end SsaCompiler
