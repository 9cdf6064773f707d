/-
# Structures get their bodies in order

A cycle of structures is closed by a structure that gets its body when it is already part of another
type. While the members of an object are looked up its structure is without body, and so it could only
become part of a structure that is made on the spot: an instance of a template. An array is an
instance too, but its structure holds a pointer and numbers.

When no member has the type of an instance other than an array, each structure gets its body before it
becomes a field, whatever instances the code asks for. So there are no cycles. A state is in order when
nothing has a field that waits for its body, and when the objects and the instances that are there
have types that may be fields.
-/

import SsaCompiler.Proofs.Lower.Agreement.Compilation

namespace SsaCompiler

open Lower Relation

/-- No instance of a template is asked for where the type is looked up, apart from arrays. -/
def TypeExpr.IsSimple : TypeExpr → Prop
  | .prim _ | .named _ => True
  | .pointer ty | .reference ty | .array ty => ty.IsSimple
  | .generic _ _ => False

/-! ### Types -/

namespace TypeTable

variable {t t' : TypeTable} {O : Set TypeId} {X : Set TypeId} {id struct field : TypeId}
  {text : String}

/-- A structure has a field of a type. -/
def HasField (t : TypeTable) (struct field : TypeId) : Prop :=
  ∃ name fields, t.get struct = .ok (.named name (some fields)) ∧ field ∈ fields

/-- A type is a structure, or it has no parts. -/
def IsPlain (t : TypeTable) (id : TypeId) : Prop :=
  ∃ ty, t.get id = .ok ty ∧ (ty.structName?.isSome ∨ ty.parts = [])

/-- It stays one. -/
theorem IsPlain.mono (h : t.IsPlain id) (ht : t.KeepsBut X t') : t'.IsPlain id := by
  obtain ⟨ty, hty, hplain⟩ := h
  obtain ⟨ty', hty', rfl | ⟨name, body, -, rfl⟩⟩ := ht.becomes hty
  · exact ⟨_, hty', hplain⟩
  · exact ⟨_, hty', .inl rfl⟩

theorem isPlain_of_named {body : Option (List TypeId)} (h : t.get id = .ok (.named text body)) :
    t.IsPlain id := ⟨_, h, .inl rfl⟩

/-- Structures have simple fields, no structure is inside itself, and some structures, which wait for
their bodies, are no fields of others. -/
structure IsOrdered (O : Set TypeId) (t : TypeTable) : Prop where
  plain : ∀ {struct field}, t.HasField struct field → t.IsPlain field
  acyclic : ∀ id, ¬ TransGen t.HasField id id
  noBody : ∀ id ∈ O, ∃ text, t.get id = .ok (.named text none)
  noField : ∀ id ∈ O, ∀ struct, ¬ t.HasField struct id

theorem isOrdered_empty : empty.IsOrdered ∅ where
  plain h := by
    obtain ⟨name, fields, hget, -⟩ := h
    cases hget
  acyclic id h := by
    obtain ⟨_, ⟨name, fields, hget, -⟩, -⟩ := TransGen.head'_iff.1 h
    cases hget
  noBody id hid := absurd hid (Set.notMem_empty id)
  noField id hid := absurd hid (Set.notMem_empty id)

/-- The fields after a body has been filled in. -/
theorem hasField_of_setStructBody {body : List TypeId} (hset : t.setStructBody id body = .ok (true, t'))
    (h : t'.HasField struct field) : t.HasField struct field ∨ struct = id ∧ field ∈ body := by
  obtain ⟨name, fields, hget, hmem⟩ := h
  obtain ⟨name', -, hafter⟩ := get_setStructBody hset struct
  rw [hafter] at hget
  split at hget
  · rename_i heq
    cases hget
    exact .inr ⟨heq, hmem⟩
  · exact .inl ⟨name, fields, hget, hmem⟩

/-- Where no structure has got a body, fields are what they were. -/
theorem SameBodies.hasField_iff (h : t.SameBodies t') : t'.HasField struct field ↔ t.HasField struct field := by
  constructor
  · rintro ⟨name, fields, hget, hfield⟩
    exact ⟨name, fields, h.body hget, hfield⟩
  · rintro ⟨name, fields, hget, hfield⟩
    exact ⟨name, fields, h.get hget, hfield⟩

namespace IsOrdered

theorem of_sameBodies (h : t.IsOrdered O) (hsame : t.SameBodies t') : t'.IsOrdered O where
  plain hfield := (h.plain (hsame.hasField_iff.1 hfield)).mono (hsame.keepsBut (X := ∅))
  acyclic id hcycle := h.acyclic id (TransGen.mono (fun _ _ => hsame.hasField_iff.1) _ _ hcycle)
  noBody id hid := by
    obtain ⟨text, hget⟩ := h.noBody id hid
    exact ⟨text, hsame.get hget⟩
  noField id hid struct hfield := h.noField id hid struct (hsame.hasField_iff.1 hfield)

/-- A type that is not there is no field. -/
theorem not_hasField (h : t.IsOrdered O) (hid : ∀ ty, t.get id ≠ .ok ty) : ¬ t.HasField struct id := by
  intro hfield
  obtain ⟨ty, hty, -⟩ := h.plain hfield
  exact hid ty hty

/-- One more structure waits for its body. -/
theorem insert (h : t.IsOrdered O) (hid : t.get id = .ok (.named text none))
    (hfield : ∀ struct, ¬ t.HasField struct id) : t.IsOrdered (insert id O) where
  plain := h.plain
  acyclic := h.acyclic
  noBody other hother := by
    rcases Set.mem_insert_iff.1 hother with rfl | hother
    · exact ⟨text, hid⟩
    · exact h.noBody other hother
  noField other hother := by
    rcases Set.mem_insert_iff.1 hother with rfl | hother
    · exact hfield
    · exact h.noField other hother

/-- A structure that is no field gets its body: types that may be fields, none of which waits. -/
theorem setStructBody {body : List TypeId} (h : t.IsOrdered O) (hid : ∀ struct, ¬ t.HasField struct id)
    (hbody : ∀ field ∈ body, t.IsPlain field ∧ field ≠ id ∧ field ∉ O)
    (hset : t.setStructBody id body = .ok (true, t')) : t'.IsOrdered (O \ {id}) := by
  have hkeeps := keepsBut_of_setStructBody hset
  refine ⟨fun hfield => ?_,
    not_transGen_of_new_ways (hasField_of_setStructBody hset) h.acyclic fun field hfield hback => ?_,
    fun other hother => ?_, fun other hother struct hfield => ?_⟩
  · rcases hasField_of_setStructBody hset hfield with hold | ⟨-, hnew⟩
    · exact (h.plain hold).mono hkeeps
    · exact (hbody _ hnew).1.mono hkeeps
  · rcases hback.cases_tail with heq | ⟨struct, -, hlast⟩
    · exact (hbody _ hfield).2.1 heq.symm
    · exact hid struct hlast
  · obtain ⟨text, hget⟩ := h.noBody other hother.1
    exact ⟨text, hkeeps.get hother.2 hget⟩
  · rcases hasField_of_setStructBody hset hfield with hold | ⟨-, hnew⟩
    · exact h.noField other hother.1 struct hold
    · exact (hbody _ hnew).2.2 hother.1

/-- From a type that may be a field the way to its parts leads from field to field. -/
theorem transGen_hasField (h : t.IsOrdered O) {inner : TypeId} (hid : t.IsPlain id)
    (hpath : TransGen t.Contains id inner) : TransGen t.HasField id inner := by
  have hstep {a b : TypeId} (ha : t.IsPlain a) (hab : t.Contains a b) : t.HasField a b := by
    obtain ⟨ty, hty, hplain⟩ := ha
    obtain ⟨ty', hty', hpart⟩ := hab
    cases hty.symm.trans hty'
    rcases hplain with hname | hparts
    · cases ty with
      | named name body =>
          cases body with
          | none => cases hpart
          | some fields => exact ⟨name, fields, hty, hpart⟩
      | _ => cases hname
    · rw [hparts] at hpart
      cases hpart
  induction hpath using TransGen.head_induction_on with
  | single hab => exact .single (hstep hid hab)
  | head hab _ ih =>
      have hfield := hstep hid hab
      exact .head hfield (ih (h.plain hfield))

/-- In a table that has developed in this way no type holds a whole value of itself. -/
theorem isAcyclic (h : t.IsOrdered O) (ht : empty.Develops t) : t.IsAcyclic := by
  obtain ⟨-, hacyclic | ⟨t₁, t₂, id, body, -, hset, hlater, field, hfield, -, hpath⟩⟩ :=
    ht.isAcyclic_or_closes
  · exact hacyclic
  · exfalso
    obtain ⟨name, hopaque, hget⟩ := get_setStructBody hset id
    rw [if_pos rfl] at hget
    have hid : t.HasField id field := ⟨name, body, hlater.get_of_isOpaque_eq_false hget rfl, hfield⟩
    have hlast : TransGen t.Contains field id := TransGen.mono (fun a b hab =>
      hlater.contains ((contains_setStructBody_iff hset).2 (.inl hab))) _ _ hpath
    exact h.acyclic id (.head hid (h.transGen_hasField (h.plain hid) hlast))

end IsOrdered

end TypeTable

/-! ### States of lowering -/

namespace Names

variable {ns ns' : Names} {n : Name}

/-- A name with a sign that names of instances have. -/
def IsInstance (ns : Names) (n : Name) : Prop := ∃ text, ns.text n = .ok text ∧ '<' ∈ text.toList

theorem IsInstance.mono (h : ns.IsInstance n) (hgrow : ns.Grow ns') : ns'.IsInstance n := by
  obtain ⟨text, htext, hsign⟩ := h
  exact ⟨text, hgrow _ _ htext, hsign⟩

/-- An identifier is no such name. -/
theorem IsIdentifier.not_isInstance (h : ns.IsIdentifier n) (hgrow : ns.Grow ns') :
    ¬ ns'.IsInstance n := by
  rintro ⟨text, htext, hsign⟩
  exact (h.mono hgrow).ne htext hsign rfl

end Names

namespace Lowering

variable {s s' : Lowering} {ns : Names} {O : Set TypeId} {name : Name} {ty : TypeId} {text : String}

/-- Structures get their bodies in order. An object is complete unless its structure waits for its body
or it is an instance. What may be looked up as the type of a member has a type that may be a field, and
no template of the program has a member that is an instance. -/
structure IsOrdered (O : Set TypeId) (s : Lowering) : Prop where
  types : s.module.types.IsOrdered O
  complete : ∀ {name info}, s.context.symbols.objects.get? name = some info →
    info.complete = false → info.ty ∈ O ∨ s.names.IsInstance name
  objects : ∀ {name info}, s.context.symbols.objects.get? name = some info →
    s.module.types.IsPlain info.ty
  instances : ∀ {key ty}, s.context.templates.instances.get? key = some ty →
    s.module.types.IsPlain ty
  members : ∀ {key template members methods},
    s.context.templates.templates.get? key = some template →
      template.body = .declared members methods → ∀ member ∈ members, member.ty.IsSimple
  array : ∃ template, s.context.templates.get? s.context.templates.arrayName 1 = some template ∧
    template.body = .dynamicArray

instance (O : Set TypeId) : ConcernsLayouts (IsOrdered O) where
  of_same {s t} hs hlayouts htypes hnames := by
    have hkeeps := htypes.keepsBut (X := ∅)
    have hobject {name : Name} {info : ObjectInfo}
        (hinfo : t.context.symbols.objects.get? name = some info) : ∃ old,
        s.context.symbols.objects.get? name = some old ∧ old.ty = info.ty ∧
          old.complete = info.complete := by
      obtain ⟨old, hold, houtline⟩ := hlayouts.symbols.exists_object hinfo
      exact ⟨old, hold,
        show old.outline.ty = info.outline.ty from congrArg ObjectInfo.ty houtline,
        show old.outline.complete = info.outline.complete from
          congrArg ObjectInfo.complete houtline⟩
    refine ⟨hs.types.of_sameBodies htypes, fun hinfo hincomplete => ?_, fun hinfo => ?_, ?_, ?_, ?_⟩
    · obtain ⟨old, hold, hty, hcomplete⟩ := hobject hinfo
      exact (hs.complete hold (hcomplete.trans hincomplete)).imp (hty ▸ ·) (·.mono hnames)
    · obtain ⟨old, hold, hty, -⟩ := hobject hinfo
      exact hty ▸ (hs.objects hold).mono hkeeps
    · rw [hlayouts.templates]
      exact fun hty => (hs.instances hty).mono hkeeps
    · rw [hlayouts.templates]
      exact hs.members
    · rw [hlayouts.templates]
      exact hs.array

/-- Objects and structures agree as well. -/
structure InOrder (ns : Names) (O : Set TypeId) (s : Lowering) : Prop where
  agrees : s.Agrees ns
  order : s.IsOrdered O

instance (ns : Names) (O : Set TypeId) : ConcernsLayouts (InOrder ns O) where
  of_same hs hlayouts htypes hnames :=
    ⟨ConcernsLayouts.of_same hs.agrees hlayouts htypes hnames,
      ConcernsLayouts.of_same hs.order hlayouts htypes hnames⟩

/-- One more structure waits for its body. -/
theorem IsOrdered.wait (hs : s.IsOrdered O) (hty : s.module.types.get ty = .ok (.named text none))
    (hfield : ∀ struct, ¬ s.module.types.HasField struct ty) : s.IsOrdered (insert ty O) :=
  { hs with
    types := hs.types.insert hty hfield
    complete := fun hinfo hincomplete =>
      (hs.complete hinfo hincomplete).imp_left (Set.mem_insert_of_mem ty) }

/-- A new object is an instance, or its structure waits. -/
theorem IsOrdered.declareNew (hs : s.IsOrdered O) (hty : s.module.types.get ty = .ok (.named text none))
    (hname : ty ∈ O ∨ s.names.IsInstance name) :
    IsOrdered O { s with context := { s.context with
      symbols := s.context.symbols.declareObject (.new name ty) } } := by
  refine { hs with complete := fun {name' info} hinfo hincomplete => ?_,
                   objects := fun {name' info} hinfo => ?_ }
  · rw [SymbolTable.get?_declareObject] at hinfo
    split at hinfo
    · rename_i heq
      cases hinfo
      exact heq ▸ hname
    · exact hs.complete hinfo hincomplete
  · rw [SymbolTable.get?_declareObject] at hinfo
    split at hinfo
    · cases hinfo
      exact TypeTable.isPlain_of_named hty
    · exact hs.objects hinfo

/-- Placeholders are complete from the start. -/
theorem IsOrdered.bindPlaceholders {params : List (Name × TypeId)} (hs : s.IsOrdered O)
    (hparams : ∀ param ∈ params, s.module.types.IsPlain param.2) :
    IsOrdered O { s with context := { s.context with
      symbols := (SymbolTable.bindPlaceholders params s.context.symbols).2 } } := by
  induction params generalizing s with
  | nil => exact hs
  | cons param rest ih =>
      obtain ⟨hfirst, hrest⟩ := List.forall_mem_cons.1 hparams
      have hget := SymbolTable.get?_bindPlaceholder s.context.symbols param.1 param.2
      have hs₁ : IsOrdered O { s with context := { s.context with
          symbols := (s.context.symbols.bindPlaceholder param.1 param.2).2 } } := by
        refine ⟨hs.types, fun {name info} hinfo hincomplete => ?_, fun {name info} hinfo => ?_,
          hs.instances, hs.members, hs.array⟩
        · rw [hget] at hinfo
          split at hinfo
          · cases hinfo
            cases hincomplete
          · exact hs.complete hinfo hincomplete
        · rw [hget] at hinfo
          split at hinfo
          · cases hinfo
            exact hfirst
          · exact hs.objects hinfo
      exact ih hs₁ hrest

/-- What the placeholders of an instance hid is there again. -/
theorem IsOrdered.behind {X : Set TypeId} {s₁ : Lowering} (hs : s.IsOrdered O)
    (hbehind : s.IsBehind s₁ s') (hs₁ : s₁.IsOrdered O) (hsettles : s.Settles X s') :
    s'.IsOrdered O := by
  obtain ⟨htypes, hnames, htemplates, hobjects⟩ := hbehind
  refine ⟨htypes ▸ hs₁.types, fun hinfo hincomplete => ?_, fun hinfo => ?_, ?_, ?_, ?_⟩
  · rcases hobjects hinfo with hold | hinfo
    · exact (hs.complete hold hincomplete).imp_right (·.mono hsettles.names)
    · exact hnames ▸ hs₁.complete hinfo hincomplete
  · rcases hobjects hinfo with hold | hinfo
    · exact (hs.objects hold).mono hsettles.types
    · exact htypes ▸ hs₁.objects hinfo
  · rw [htypes, htemplates]
    exact hs₁.instances
  · rw [htemplates]
    exact hs₁.members
  · rw [htemplates]
    exact hs₁.array

/-- An instance is remembered with a type that may be a field. -/
theorem IsOrdered.recordInstance {args : List TypeId} (hs : s.IsOrdered O)
    (hty : s.module.types.IsPlain ty) : IsOrdered O { s with context := { s.context with
      templates := s.context.templates.recordInstance name args ty } } where
  types := hs.types
  complete := hs.complete
  objects := hs.objects
  instances {key ty'} hget := by
    have hget : (s.context.templates.instances.insert (name, args) ty).get? key = some ty' := hget
    rw [Table.get?_insert] at hget
    split at hget
    · cases hget
      exact hty
    · exact hs.instances hget
  members := hs.members
  array := hs.array

/-- A template is added none of whose members is an instance other than an array. -/
theorem IsOrdered.insertTemplate {template : Template} {table : TemplateTable} (hs : s.IsOrdered O)
    (hmembers : ∀ members methods, template.body = .declared members methods →
      ∀ member ∈ members, member.ty.IsSimple)
    (hinsert : s.context.templates.insert template = some table) :
    IsOrdered O { s with context := { s.context with templates := table } } := by
  have hget {key : Name × Nat} {other : Template}
      (hother : table.templates.get? key = some other) := TemplateTable.eq_or_get?_of_insert hinsert hother
  obtain ⟨hinstances, hname, hkept⟩ := TemplateTable.same_of_insert hinsert
  refine ⟨hs.types, hs.complete, hs.objects, hinstances ▸ hs.instances, fun hother hbody => ?_, ?_⟩
  · rcases hget hother with rfl | hold
    · exact hmembers _ _ hbody
    · exact hs.members hold hbody
  · obtain ⟨array, harray, hbody⟩ := hs.array
    exact ⟨array, hname ▸ hkept harray, hbody⟩

namespace InOrder

/-- An object that waits for its members is the only one with its type. -/
theorem eq_of_ty {info : ObjectInfo} {name' : Name} (hs : s.InOrder ns O) (hawaits : s.Awaits name ty)
    (hinfo : s.context.symbols.objects.get? name' = some info) (hincomplete : info.complete = false)
    (hty : info.ty = ty) : name' = name := by
  have hplain : info.placeholder = false := by
    cases hplaceholder : info.placeholder with
    | false => rfl
    | true => exact (hs.agrees.symbols.complete hinfo hplaceholder).symm.trans hincomplete
  obtain ⟨other, hother, hsame, hplain'⟩ := hawaits.object
  have hfound := hs.agrees.symbols.found hinfo hplain
  have hfound' := hs.agrees.symbols.found hother hplain'
  rw [hty] at hfound
  rw [hsame] at hfound'
  exact Option.some.inj (hfound.symm.trans hfound')

/-- An object that waits gets its members, with types that may be fields. -/
theorem completeObject {members : List (Name × TypeId)} {u : Unit} (hs : s.InOrder ns O)
    (hfield : ∀ struct, ¬ s.module.types.HasField struct ty) (hawaits : s.Awaits name ty)
    (hnames : (members.map Prod.fst).Nodup)
    (hmembers : ∀ m ∈ members, s.module.types.IsPlain m.2 ∧ m.2 ≠ ty ∧ m.2 ∉ O)
    (h : Lower.completeObject ty members s = .ok (u, s')) : s'.InOrder ns (O \ {ty}) := by
  obtain ⟨-, hagrees, -⟩ := (isRespectful_completeObject hawaits hnames).run hs.agrees h
  refine ⟨hagrees, ?_⟩
  obtain ⟨types, hset, rfl⟩ := completeObject_eq_ok hs.agrees hawaits h
  have hkeeps := TypeTable.keepsBut_of_setStructBody hset
  obtain ⟨info, hinfo, hsame, hplain⟩ := hawaits.object
  have hget := SymbolTable.get?_modifyByType (hsame ▸ hs.agrees.symbols.found hinfo hplain) hinfo
    fun info => { info with members := members, complete := true }
  refine ⟨hs.order.types.setStructBody hfield (fun field hfield => ?_) hset,
    fun {name' other} hother hincomplete => ?_, fun {name' other} hother => ?_,
    fun hty => (hs.order.instances hty).mono hkeeps, hs.order.members, hs.order.array⟩
  · obtain ⟨m, hm, rfl⟩ := List.mem_map.1 hfield
    exact hmembers m hm
  · have hother : (if name' = name then _ else _) = some other := (hget name').symm.trans hother
    split at hother
    · cases hother
      cases hincomplete
    · rename_i hne
      refine (hs.order.complete hother hincomplete).imp_left fun hmem => ⟨hmem, fun heq => ?_⟩
      exact hne (hs.eq_of_ty hawaits hother hincomplete heq)
  · have hother : (if name' = name then _ else _) = some other := (hget name').symm.trans hother
    split at hother
    · cases hother
      exact (hs.order.objects hinfo).mono hkeeps
    · exact (hs.order.objects hother).mono hkeeps

end InOrder

end Lowering

/-! ### Types and members -/

variable {ns : Names} {I : Lowering → Prop} {O : Set TypeId} {X : Set TypeId} {s s' : Lowering}
  {r : Recur} {name : Name} {ty : TypeId} {args : List TypeId} {span : Span}

/-- A request for a type that may be a field. -/
theorem respects_plainRequest [Lowering.ConcernsLayouts I] {b : Build TypeId} [b.Edits]
    (hb : ∀ {m id m'}, b m = .ok (id, m') → m'.types.IsPlain id) :
    (liftM b : Attempt TypeId).Respects I X (fun s' id => s'.module.types.IsPlain id) s :=
  .lift ⟨fun hs h => by
    obtain ⟨hsettles, hs', -⟩ := (Respects.build b).run hs h
    obtain ⟨m, hrun, rfl⟩ := build_eq_ok_iff.1 h
    exact ⟨hsettles, hs', hb hrun⟩⟩

theorem isPlain_of_pointerType {m m' : Module} {id : TypeId}
    (h : Build.pointerType ty m = .ok (id, m')) : m'.types.IsPlain id := by
  cases h
  exact ⟨_, Module.get_intern _ _, .inr rfl⟩

/-- So has a name that is found. -/
theorem respects_namedType_plain (name : Name) (span : Span) (s : Lowering) :
    (namedType name false span).Respects (Lowering.InOrder ns O) X
      (fun s' id => s'.module.types.IsPlain id) s := by
  unfold namedType
  refine (Attempt.Maintains.lift .symbols).bind fun table s₁ _ hs₁ hsame => ?_
  obtain ⟨rfl, rfl⟩ := hsame
  split
  · rename_i info hinfo
    exact .pure (hs₁.order.objects hinfo)
  · refine (Attempt.Maintains.lift (.nameText name)).bind fun text s₂ _ _ _ =>
      (Attempt.Maintains.lift .get).bind fun a s₃ _ _ _ => ?_
    split <;> exact .reject (Respects.report ..)

/-- While structures wait only arrays are asked for, and otherwise any instances. -/
class Recur.KeepsOrder (r : Recur) (ns : Names) : Prop where
  instantiate : ∀ (O : Set TypeId) name args span (s : Lowering),
    (O = ∅ ∨ name = s.context.templates.arrayName ∧ args.length = 1) →
      (∀ a ∈ args, s.module.types.IsPlain a) →
        Attempt.Respects (Lowering.InOrder ns O) ∅ (fun s' id => s'.module.types.IsPlain id)
          (OptionT.mk (r.instantiate name args span)) s

mutual

/-- What a type expression stands for may be a field. -/
theorem Recur.respects_type [hr : r.KeepsOrder ns] (O : Set TypeId) (span : Span) (expr : TypeExpr)
    (hexpr : O = ∅ ∨ expr.IsSimple) (s : Lowering) : (r.type span expr).Respects (Lowering.InOrder ns O) ∅
      (fun s' id => s'.module.types.IsPlain id) s := by
  have hpointer {expr : TypeExpr} (hinner : (r.type span expr).Respects (Lowering.InOrder ns O) ∅
      (fun s' id => s'.module.types.IsPlain id) s) : (do
        Build.pointerType (← r.type span expr) : Attempt TypeId).Respects (Lowering.InOrder ns O) ∅
          (fun s' id => s'.module.types.IsPlain id) s :=
    hinner.bind fun _ _ _ _ _ => respects_plainRequest isPlain_of_pointerType
  unfold Recur.type
  split
  case h_1 p =>
      refine respects_plainRequest fun {m id m'} h => ?_
      cases p <;> cases h <;> exact ⟨_, Module.get_intern _ _, .inr rfl⟩
  case h_2 | h_3 =>
      refine respects_plainRequest fun {m id m'} h => ?_
      obtain ⟨byte, m₁, -, h⟩ := bind_eq_ok_iff.1 h
      exact isPlain_of_pointerType h
  case h_4 inner _ => exact hpointer (Recur.respects_type O span inner hexpr s)
  case h_5 inner _ => exact hpointer (Recur.respects_type O span inner hexpr s)
  case h_6 name => exact respects_namedType_plain name span s
  case h_7 name exprs =>
      obtain rfl : O = ∅ := hexpr.resolve_right id
      exact (Recur.respects_types span exprs s).bind fun args s₁ _ _ hargs =>
        hr.instantiate ∅ name args span s₁ (.inl rfl) hargs
  case h_8 elem =>
      refine (Recur.respects_type O span elem hexpr s).bind fun elem s₁ _ _ helem => ?_
      refine (Attempt.Maintains.lift .get).bind fun a s₂ _ _ hsame => ?_
      obtain ⟨rfl, rfl⟩ := hsame
      refine hr.instantiate O _ [elem] span a (.inr ⟨rfl, rfl⟩) fun b hb => ?_
      cases List.mem_singleton.1 hb
      exact helem

theorem Recur.respects_types [r.KeepsOrder ns] (span : Span) (exprs : List TypeExpr) (s : Lowering) :
    (r.types span exprs).Respects (Lowering.InOrder ns ∅) ∅
      (fun s' ids => ∀ id ∈ ids, s'.module.types.IsPlain id) s := by
  unfold Recur.types
  split
  case h_1 => exact .pure fun id hid => absurd hid List.not_mem_nil
  case h_2 expr rest =>
      refine (Recur.respects_type ∅ span expr (.inl rfl) s).bind fun id s₁ _ _ hid => ?_
      refine (Recur.respects_types span rest s₁).bind fun ids s₂ h₂ _ hids => .pure fun a ha => ?_
      rcases List.mem_cons.1 ha with rfl | ha
      · exact hid.mono h₂.types
      · exact hids a ha

end

/-- An object gets its members in order, if none of them is an instance other than an array. -/
theorem Lowering.InOrder.layout [r.KeepsOrder ns] {fields : List Field} {u : Unit} (hs : s.InOrder ns {ty})
    (hawaits : s.Awaits name ty) (hfields : ∀ field ∈ fields, field.ty.IsSimple)
    (h : r.layout ty fields span s = .ok (u, s')) : s'.InOrder ns ∅ := by
  obtain ⟨members, s₁, hmembers, h⟩ := bind_eq_ok_iff.1 h
  obtain ⟨h₁, hs₁, hnames, hmembers⟩ := (respects_memberTypes
    (T := fun s id => s.module.types.IsPlain id)
    (fun _ _ _ hsettles hplain => hplain.mono hsettles.types) fields []
    (fun field hfield s => Recur.respects_type {ty} span field.ty (.inr (hfields field hfield)) s)
    List.nodup_nil nofun).run hs hmembers
  have hs' := hs₁.completeObject (hs₁.order.types.noField ty (Set.mem_singleton ty))
    (hawaits.mono h₁ (Set.notMem_empty ty)) hnames
    (fun m hm => ⟨(hmembers m hm).1, (hmembers m hm).2, (hmembers m hm).2⟩) h
  rwa [Set.sdiff_self] at hs'

/-! ### Instances of templates -/

/-- Structures get their bodies in order, and one of them is no field. -/
structure Lowering.LeavesOut (ns : Names) (O : Set TypeId) (ty : TypeId) (s : Lowering) : Prop
    extends s.InOrder ns O where
  noField : ∀ struct, ¬ s.module.types.HasField struct ty

instance : Lowering.ConcernsLayouts (Lowering.LeavesOut ns O ty) where
  of_same hs hlayouts htypes hnames :=
    ⟨Lowering.ConcernsLayouts.of_same hs.toInOrder hlayouts htypes hnames,
      fun struct hfield => hs.noField struct (htypes.hasField_iff.1 hfield)⟩

/-- An array gets a pointer and numbers as fields, and these wait for no body. -/
theorem DynamicArray.leavesOut_build (elem : TypeId) (hty : ty ∉ O) (hawaits : s.Awaits name ty) :
    IsRespectful (Lowering.LeavesOut ns O ty) {ty} (build ty elem) s := by
  refine respects_build elem fun members s₁ hsettles hnames hmembers => ⟨fun hs h => ?_⟩
  have hawaits₁ := hawaits.mono hsettles (Set.notMem_empty ty)
  obtain ⟨hsettles', hagrees, -⟩ := (isRespectful_completeObject hawaits₁ hnames).run hs.agrees h
  have hother : ∀ m ∈ members, ∀ id, (∃ text, s₁.module.types.get id = .ok (.named text none)) →
      m.2 ≠ id := by
    rintro m hm _ ⟨text, hget⟩ rfl
    obtain ⟨u, hu, hname, -⟩ := hmembers m hm
    cases hget.symm.trans hu
    cases hname
  have hself := fun m hm => hother m hm ty hawaits₁.noBody
  have horder := hs.completeObject hs.noField hawaits₁ hnames (fun m hm => by
    obtain ⟨u, hu, -, hparts⟩ := hmembers m hm
    exact ⟨⟨u, hu, .inr hparts⟩, hself m hm,
      fun hmem => hother m hm _ (hs.order.types.noBody _ hmem) rfl⟩) h
  rw [Set.sdiff_singleton_eq_self hty] at horder
  refine ⟨hsettles', ⟨horder, fun struct hfield => ?_⟩, trivial⟩
  obtain ⟨types, hset, rfl⟩ := completeObject_eq_ok hs.agrees hawaits₁ h
  rcases TypeTable.hasField_of_setStructBody hset hfield with hold | ⟨-, hnew⟩
  · exact hs.noField struct hold
  · obtain ⟨m, hm, heq⟩ := List.mem_map.1 hnew
    exact hself m hm heq

section

variable [r.IsRespectful (Lowering.Agrees ns)] [r.IsRespectful (Lowering.InOrder ns ∅)]
  [r.KeepsOrder ns]

/-- An instance of a template of the program gets its members in order, and nothing waits while its
methods are lowered. -/
theorem Lowering.LeavesOut.fillDeclared {template : Template} {members : List Field}
    {methods : List (Option Node)} {u : Unit} (hs : s.LeavesOut ns ∅ ty) (hawaits : s.Awaits name ty)
    (hparams : ∀ param ∈ template.params, param ≠ name)
    (hargs : ∀ a ∈ args, s.module.types.IsPlain a) (hmembers : ∀ m ∈ members, m.ty.IsSimple)
    (h : r.fillDeclared ty template members methods args span s = .ok (u, s')) :
    s'.InOrder ns ∅ := by
  obtain ⟨s₁, hrun, hagrees, hwaiting, hbehind, hsettles, hs'⟩ :=
    fillDeclared_eq_ok hs.agrees hawaits hparams h
  have hbound := hs.order.bindPlaceholders fun param hparam =>
    hargs _ (List.of_mem_zip (show param ∈ template.params.zip args from hparam)).2
  have hgrow := s.names.grow_intern "this"
  have hinside : (s.insideInstance (template.params.zip args)).IsOrdered ∅ :=
    Lowering.ConcernsLayouts.of_names hbound hgrow _
  obtain ⟨text, hopaque⟩ := hawaits.noBody
  obtain ⟨⟨⟩, s₂, hlayout, hrest⟩ := bind_eq_ok_iff.1 hrun
  have hwait := hinside.wait hopaque hs.noField
  rw [insert_empty_eq] at hwait
  have hs₂ := Lowering.InOrder.layout ⟨hagrees, hwait⟩ hwaiting hmembers hlayout
  have hmethods : IsRespectful (Lowering.InOrder ns ∅) ∅ (do
      r.declareMembers ty methods
      r.defineMembers methods : Lower Unit) s₂ := Respects.of_composed
  obtain ⟨-, hs₁, -⟩ := hmethods.run hs₂ hrest
  exact ⟨hs', hs.order.behind hbehind hs₁.order hsettles⟩

/-- An instance of a template gets its members in order: while structures wait only arrays. -/
theorem Lowering.LeavesOut.fillInstance {canonical : String} {template : Template} {u : Unit}
    (hs : s.LeavesOut ns O ty) (hty : ty ∉ O) (hawaits : s.Awaits name ty)
    (hparams : ∀ param ∈ template.params, param ≠ name)
    (hargs : ∀ a ∈ args, s.module.types.IsPlain a) (hbody : O = ∅ ∨ template.body = .dynamicArray)
    (hmembers : ∀ members methods, template.body = .declared members methods →
      ∀ m ∈ members, m.ty.IsSimple)
    (h : r.fillInstance ty canonical template args span s = .ok (u, s')) : s'.InOrder ns O := by
  unfold Recur.fillInstance at h
  cases hkind : template.body with
  | dynamicArray =>
      rw [hkind] at h
      cases args with
      | nil => exact ((Respects.of_composed (X := ∅)).run hs h).2.1.toInOrder
      | cons elem rest =>
          exact ((DynamicArray.leavesOut_build elem hty hawaits).run hs h).2.1.toInOrder
  | declared members methods =>
      rw [hkind] at h
      obtain rfl : O = ∅ := hbody.resolve_right fun harray => by
        rw [hkind] at harray
        cases harray
      exact hs.fillDeclared hawaits hparams hargs (hmembers _ _ hkind) h

/-- A new instance has a structure of its own, and this gets its body before it becomes a field. -/
theorem respects_newInstance {template : Template}
    (hparams : ∀ param ∈ template.params, ns.IsIdentifier param)
    (hargs : ∀ a ∈ args, s.module.types.IsPlain a) (hbody : O = ∅ ∨ template.body = .dynamicArray)
    (hmembers : ∀ members methods, template.body = .declared members methods →
      ∀ m ∈ members, m.ty.IsSimple) :
    Respects (Lowering.InOrder ns O) ∅ (fun s' id => s'.module.types.IsPlain id)
      (r.newInstance name args template span) s where
  run {id s'} hs h := by
    obtain ⟨hsettles, hagrees, -⟩ := (isRespectful_newInstance hparams).run hs.agrees h
    suffices hlast : s'.IsOrdered O ∧ s'.module.types.IsPlain id from
      ⟨hsettles, ⟨hagrees, hlast.1⟩, hlast.2⟩
    unfold Recur.newInstance at h
    obtain ⟨text, s₁, htext, h⟩ := bind_eq_ok_iff.1 h
    obtain ⟨h₁, hs₁, -⟩ := (Respects.of_composed (X := ∅)).run hs htext
    obtain ⟨argTexts, s₂, hargTexts, h⟩ := bind_eq_ok_iff.1 h
    obtain ⟨h₂, hs₂, -⟩ := (Respects.of_composed (X := ∅)).run hs₁ hargTexts
    obtain ⟨canonicalName, s₃, hintern, h⟩ := bind_eq_ok_iff.1 h
    obtain ⟨h₃, hs₃, hcanonical⟩ := (Respects.intern (X := ∅) _).run hs₂ hintern
    rw [bind_of_ok (symbols_apply s₃)] at h
    cases hinfo : s₃.context.symbols.object? canonicalName with
    | some info =>
        rw [hinfo] at h
        have hplain := hs₃.order.objects hinfo
        cases h
        exact ⟨hs₃.order.recordInstance hplain, hplain⟩
    | none =>
        rw [hinfo] at h
        obtain ⟨ty, s₄, hstruct, h⟩ := bind_eq_ok_iff.1 h
        have hnew := s₃.module.types.get_size_ne_ok
        obtain ⟨h₄, hs₄, hcontext, rfl, hopaque, htypes⟩ :=
          (respects_namedStruct (X := ∅) _ s₃).run hs₃ hstruct
        have hinstance : s₄.names.IsInstance canonicalName :=
          ⟨_, h₄.names _ _ hcanonical, by simp⟩
        have hfield (struct : TypeId) : ¬ s₄.module.types.HasField struct ⟨s₃.module.types.size⟩ :=
          fun hfield => hs₃.order.types.not_hasField hnew (htypes.hasField_iff.1 hfield)
        have hbyType := hs₃.agrees.symbols.byType_eq_none hnew
        have hinfo : s₃.context.symbols.objects.get? canonicalName = none := hinfo
        rw [← hcontext] at hinfo hbyType
        obtain ⟨⟨⟩, s₅, hdeclare, h⟩ := bind_eq_ok_iff.1 h
        obtain ⟨h₅, hagrees₅, hawaits⟩ :=
          (respects_declareNew (X := ∅) hinfo hbyType hopaque).run hs₄.agrees hdeclare
        obtain ⟨⟨⟩, s₆, hrecord, h⟩ := bind_eq_ok_iff.1 h
        obtain ⟨h₆, hagrees₆, -⟩ := (Respects.of_composed (X := ∅)).run hagrees₅ hrecord
        obtain ⟨⟨⟩, s₇, hfill, h⟩ := bind_eq_ok_iff.1 h
        cases h
        have hs₆ : s₆.LeavesOut ns O ⟨s₃.module.types.size⟩ := by
          refine ⟨⟨hagrees₆, ?_⟩, ?_⟩
          · cases hdeclare
            cases hrecord
            exact (hs₄.order.declareNew hopaque (.inr hinstance)).recordInstance
              (TypeTable.isPlain_of_named hopaque)
          · cases hdeclare
            cases hrecord
            exact hfield
        have hlater := h₁.trans (h₂.trans (h₃.trans (h₄.trans (h₅.trans h₆))))
        have hawaits := hawaits.mono h₆ (Set.notMem_empty _)
        have hothers : ∀ param ∈ template.params, param ≠ canonicalName := fun param hparam =>
          ((hparams param hparam).mono hs₃.agrees.names).ne hcanonical (by simp)
        have hfilled := hs₆.fillInstance (fun hmem => by
          obtain ⟨text, hget⟩ := hs₃.order.types.noBody _ hmem
          exact hnew _ hget) hawaits hothers (fun a ha => (hargs a ha).mono hlater.types) hbody
            hmembers hfill
        obtain ⟨h₇, -, -⟩ := (isRespectful_fillInstance args span hawaits hothers).run hagrees₆ hfill
        have hplain := TypeTable.isPlain_of_named hopaque
        exact ⟨hfilled.order, ((hplain.mono h₅.types).mono h₆.types).mono h₇.types⟩

/-- An instance that is asked for has a type that may be a field. -/
theorem respects_instanceOf
    (hname : O = ∅ ∨ name = s.context.templates.arrayName ∧ args.length = 1)
    (hargs : ∀ a ∈ args, s.module.types.IsPlain a) :
    (r.instanceOf name args span).Respects (Lowering.InOrder ns O) ∅
      (fun s' id => s'.module.types.IsPlain id) s := by
  unfold Recur.instanceOf
  refine (Attempt.Maintains.lift .get).bind fun a s₁ _ hs₁ hsame => ?_
  obtain ⟨rfl, rfl⟩ := hsame
  dsimp only
  split
  · rename_i hinstance
    exact .pure (hs₁.order.instances hinstance)
  · refine Respects.attempt fun text s₂ h₂ _ => ?_
    split
    · rename_i template htemplate
      refine .lift (respects_newInstance (hs₁.agrees.templates htemplate)
        (fun a ha => (hargs a ha).mono h₂.types) (hname.imp_right ?_)
        fun _ _ hbody => hs₁.order.members htemplate hbody)
      rintro ⟨rfl, hone⟩
      obtain ⟨array, harray, hbody⟩ := hs₁.order.array
      rw [hone, harray] at htemplate
      exact Option.some.inj htemplate ▸ hbody
    · split <;> exact .reject (Respects.report ..)

end

/-! ### Declarations -/

/-- What waits for its members is not complete. -/
theorem Lowering.Agrees.complete_eq_false {info : ObjectInfo} (hs : s.Agrees ns)
    (hawaits : s.Awaits name ty) (hinfo : s.context.symbols.object? name = some info) :
    info.complete = false := by
  obtain ⟨info', hinfo', rfl, hplain⟩ := hawaits.object
  obtain rfl : info = info' := Option.some.inj (hinfo.symm.trans hinfo')
  obtain ⟨⟨text, hget⟩, -⟩ := hs.symbols.fits hinfo hplain
  obtain ⟨text', hopaque⟩ := hawaits.noBody
  cases hcomplete : info.complete with
  | false => rfl
  | true =>
      rw [ObjectInfo.body?, if_pos hcomplete, hopaque] at hget
      cases hget

/-- A declaration finds an object that is complete, or it makes one that waits for its members and
whose structure is part of nothing. -/
theorem Lowering.InOrder.namedType {o : Option TypeId} (hs : s.InOrder ns ∅)
    (hname : ns.IsIdentifier name) (h : Lower.namedType name true span s = .ok (o, s')) :
    s'.InOrder ns ∅ ∧ (∀ ty ∈ o, ∃ info, s'.context.symbols.object? name = some info ∧
        info.complete = true) ∨
      ∃ ty, o = some ty ∧ s'.InOrder ns {ty} ∧ s'.Awaits name ty := by
  unfold Lower.namedType at h
  obtain ⟨table, s₁, htable, h⟩ := Attempt.bind_lift h
  cases htable
  cases hinfo : s.context.symbols.object? name with
  | some info =>
      rw [hinfo] at h
      cases h
      refine .inl ⟨hs, fun ty hty => ⟨info, hinfo, ?_⟩⟩
      cases hcomplete : info.complete with
      | true => rfl
      | false =>
          rcases hs.order.complete hinfo hcomplete with hmem | hinstance
          · exact absurd hmem (Set.notMem_empty _)
          · exact absurd hinstance (hname.not_isInstance hs.agrees.names)
  | none =>
      rw [hinfo] at h
      obtain ⟨text, s₁, htext, hrest⟩ := Attempt.bind_lift h
      obtain ⟨-, -, rfl, -⟩ := (Maintains.nameText (I := Lowering.InOrder ns ∅)
        (R := Lowering.Settles ∅) name).run hs htext
      obtain ⟨a, s₂, hget, hrest⟩ := Attempt.bind_lift hrest
      cases hget
      cases htemplate : s₁.context.templates.hasName name with
      | true =>
          rw [if_pos htemplate] at hrest
          obtain ⟨-, hs', hnone⟩ := (Attempt.Maintains.reject (Q := fun _ _ => False)
            (Respects.report (X := ∅) ..)).run hs hrest
          exact .inl ⟨hs', fun ty hty => (hnone ty hty).elim⟩
      | false =>
          rw [if_neg (by rw [htemplate]; exact Bool.false_ne_true), if_pos rfl] at hrest
          obtain ⟨ty, s₂, hstruct, hrest⟩ := Attempt.bind_lift hrest
          have hnew := s₁.module.types.get_size_ne_ok
          obtain ⟨-, hs₂, hcontext, rfl, hopaque, htypes⟩ :=
            (respects_namedStruct (X := ∅) _ s₁).run hs hstruct
          have hbyType := hs.agrees.symbols.byType_eq_none hnew
          have hinfo : s₁.context.symbols.objects.get? name = none := hinfo
          rw [← hcontext] at hinfo hbyType
          obtain ⟨⟨⟩, s₃, hdeclare, hrest⟩ := Attempt.bind_lift hrest
          obtain ⟨-, hagrees, hawaits⟩ :=
            (respects_declareNew (X := ∅) hinfo hbyType hopaque).run hs₂.agrees hdeclare
          have hwait := hs₂.order.wait hopaque fun struct hfield =>
            hs.order.types.not_hasField hnew (htypes.hasField_iff.1 hfield)
          rw [insert_empty_eq] at hwait
          cases hdeclare
          cases hrest
          exact .inr ⟨_, rfl, ⟨hagrees, hwait.declareNew hopaque (.inl rfl)⟩, hawaits⟩

section

variable [r.IsRespectful (Lowering.InOrder ns ∅)] [r.KeepsOrder ns]

/-- An object of the program gets its members in order, if none of them is an instance other than an
array. -/
theorem Lowering.InOrder.declareObject {node : Nat} {decl : ObjectDecl Node} {o : Option Unit}
    (hs : s.InOrder ns ∅) (hname : ns.IsIdentifier decl.name)
    (hmembers : ∀ member ∈ decl.members, member.ty.IsSimple)
    (h : r.declareObject node decl span s = .ok (o, s')) : s'.InOrder ns ∅ := by
  unfold Recur.declareObject at h
  obtain ⟨isNew, s₁, hmark, h⟩ := Attempt.bind_lift h
  obtain ⟨-, hs₁, -⟩ := (Respects.of_composed (X := ∅)).run hs hmark
  cases isNew with
  | false =>
      cases h
      exact hs₁
  | true =>
      rw [if_pos rfl] at h
      rcases Attempt.bind_cases h with ⟨ty, s₂, hty, h⟩ | ⟨hty, -⟩
      · obtain ⟨table, s₃, htable, h⟩ := Attempt.bind_lift h
        cases htable
        rcases hs₁.namedType hname hty with ⟨hs₂, hcomplete⟩ | ⟨ty', heq, hs₂, hawaits⟩
        · obtain ⟨info, hinfo, hcomplete⟩ := hcomplete ty rfl
          rw [hinfo] at h
          dsimp only at h
          rw [if_pos hcomplete] at h
          have hreject {f : Unit → Attempt Unit} : (do
              let text ← Lower.nameText decl.name
              f (← Attempt.reject .structural s!"object '{text}' is already declared" span) :
                Attempt Unit).Respects (Lowering.InOrder ns ∅) ∅ (fun _ _ => True) s₂ :=
            Respects.attempt fun text s₄ _ _ =>
              (Attempt.Maintains.reject (Q := fun _ _ => False) (Respects.report ..)).bind
                fun _ _ _ _ hfalse => hfalse.elim
          exact (hreject.run hs₂ h).2.1
        · cases heq
          obtain ⟨info, hinfo, -⟩ := hawaits.object
          have hinfo : s₂.context.symbols.object? decl.name = some info := hinfo
          rw [hinfo] at h
          dsimp only at h
          rw [hs₂.agrees.complete_eq_false hawaits hinfo, if_neg Bool.false_ne_true] at h
          obtain ⟨⟨⟩, s₃, hlayout, h⟩ := Attempt.bind_lift h
          have hs₃ := hs₂.layout hawaits hmembers hlayout
          obtain ⟨⟨⟩, hdeclare, -⟩ := Attempt.lift_eq_ok h
          exact ((Respects.of_composed (X := ∅)).run hs₃ hdeclare).2.1
      · rcases hs₁.namedType hname hty with ⟨hs', -⟩ | ⟨ty', heq, -⟩
        · exact hs'
        · cases heq

/-- An object of the module gets its members in order. -/
theorem isRespectful_object_inOrder [r.IsRespectful (Lowering.Agrees ns)] {node : Nat} {decl : ObjectDecl Node}
    (hname : ns.IsIdentifier decl.name) (hmembers : ∀ member ∈ decl.members, member.ty.IsSimple) :
    IsRespectful (Lowering.InOrder ns ∅) .univ (r.object node decl span) s where
  run hs h := by
    obtain ⟨hsettles, -, -⟩ := (isRespectful_object node decl span s).run hs.agrees h
    refine ⟨hsettles, ?_, trivial⟩
    unfold Recur.object at h
    rw [bind_of_ok (func_apply s)] at h
    cases hfunc : s.pass.func with
    | some f =>
        rw [hfunc] at h
        exact ((Respects.report (X := ∅) ..).run hs h).2.1
    | none =>
        rw [hfunc] at h
        obtain ⟨o, s₁, hdeclare, h⟩ := bind_eq_ok_iff.1 h
        have hs₁ := hs.declareObject hname hmembers hdeclare
        exact ((Respects.of_composed (X := ∅)).run hs₁ h).2.1

end

/-! ### Compilations -/

/-- Objects and the parameters of templates have identifiers as names, and their members are no
instances of templates, apart from arrays. -/
def NodeKind.HasSimpleMembers (ns : Names) : NodeKind Node → Prop
  | .object decl => ns.IsIdentifier decl.name ∧ ∀ member ∈ decl.members, member.ty.IsSimple
  | .template decl => (∀ param ∈ decl.params, ns.IsIdentifier param) ∧
      ∀ member ∈ decl.members, member.ty.IsSimple
  | _ => True

/-- Structures get their bodies in order, one level of calls after the other. -/
theorem Recur.isOrdered_within (ns : Names) (n : Nat) :
    (within n).IsRespectful (Lowering.InOrder ns ∅) ∧ (within n).KeepsOrder ns := by
  induction n with
  | zero =>
      have horder : (within 0).KeepsOrder ns := ⟨fun _ _ _ _ _ _ _ => ⟨fun _ h => by cases h⟩⟩
      exact ⟨isRespectful_zero fun span ty s =>
        (respects_type ∅ span ty (.inl rfl) s).unit, horder⟩
  | succ n ih =>
      obtain ⟨hn, hn'⟩ := ih
      have horder : (within (n + 1)).KeepsOrder ns :=
        ⟨fun _ _ _ _ _ hname hargs => respects_instanceOf hname hargs⟩
      exact ⟨isRespectful_succ hn fun span ty s =>
        (respects_type ∅ span ty (.inl rfl) s).unit, horder⟩

instance (ns : Names) (n : Nat) : (Recur.within n).IsRespectful (Lowering.InOrder ns ∅) :=
  (Recur.isOrdered_within ns n).1

instance (ns : Names) (n : Nat) : (Recur.within n).KeepsOrder ns :=
  (Recur.isOrdered_within ns n).2

instance (ns : Names) (n : Nat) : (Recur.within n).RespectsDeclarations (Lowering.InOrder ns ∅)
    (NodeKind.HasSimpleMembers ns) where
  object _ _ _ _ h := isRespectful_object_inOrder h.1 h.2
  template decl span s h := by
    refine respects_registerTemplate span (fun s table hs hinsert => ?_) s
    refine ⟨hs.agrees.insertTemplate h.1 hinsert, hs.order.insertTemplate ?_ hinsert⟩
    rintro _ _ ⟨⟩
    exact h.2

namespace Compilation

variable {c : Compilation}

/-- A compilation after any number of trees without members that are instances of templates, apart
from arrays. -/
def HasSimpleMembers : Compilation → Prop :=
  IsMadeOf NodeKind.HasSimpleMembers

theorem inOrder_new (options : LowerOptions) (moduleName : String) :
    (new options moduleName).state.InOrder (new options moduleName).names ∅ where
  agrees := agrees_new options moduleName
  order := {
    types := TypeTable.isOrdered_empty
    complete := fun h => by cases h
    objects := fun h => by cases h
    instances := fun h => by cases h
    members := fun h hbody => by
      obtain ⟨-, rfl⟩ := TemplateTable.eq_of_initial h
      cases hbody
    array := ⟨_, (Table.get?_insert ..).trans (if_pos rfl), rfl⟩ }

/-- Between any two trees nothing has a field that waits for its body. -/
theorem HasSimpleMembers.inOrder (h : c.HasSimpleMembers) : c.state.InOrder c.names ∅ :=
  IsMadeOf.keeps (I := fun ns => Lowering.InOrder ns ∅) inOrder_new
    (fun _ _ hs => ⟨hs.agrees.later, hs.order⟩) h

/-- No type holds a whole value of itself when no member is an instance of a template, apart from
arrays. -/
theorem HasSimpleMembers.isAcyclic (h : c.HasSimpleMembers) : c.module.types.IsAcyclic :=
  h.inOrder.order.types.isAcyclic (IsMadeOf.isBuilt h).develops

end Compilation

end SsaCompiler
