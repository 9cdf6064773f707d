/-
# The identity of types

Types are compared by their positions in the table, which is meaningful as long as a position says
all there is to know. Of types that are described by their components there is one for every
description. A named structure is told apart from all other types, those of its name included, by
being new when it is made. And a position does not come to denote something else: a structure
gets its body, once, and that is all that ever happens to a type.

The index by which a description is found again stands beside the types, and only some of the
types stand in it. It stays the inverse of the table: what it finds is what the position denotes,
and it finds every type that has a description.

All of this holds whatever is asked of a table, and in whatever order.
-/

import SsaCompiler.Proofs.Ir.Development

namespace SsaCompiler

/-! ### Requests -/

/-- A request to a type table. -/
inductive TypeRequest where
  | void
  | int (bits : Nat)
  | float (bits : Nat)
  | pointer (pointee : TypeId)
  | array (elem : TypeId) (length : Nat)
  /-- A structure that is described by its fields alone. -/
  | record (fields : List TypeId)
  | function (params : List TypeId) (ret : TypeId) (variadic : Bool)
  /-- A new structure with a name. -/
  | named (name : String)
  /-- The body of a structure that has been made without one. -/
  | body (id : TypeId) (fields : List TypeId)
  deriving DecidableEq, Repr

/-- What a type table answers. -/
inductive TypeAnswer where
  | type (id : TypeId)
  /-- Whether the structure had no body and has got one. -/
  | filled (done : Bool)
  deriving DecidableEq, Repr

namespace TypeRequest

variable {r r' : TypeRequest} {ty : IrType}

/-- The type that a request describes by its components. -/
def description? : TypeRequest → Option IrType
  | void => some .void
  | int bits => some (.int bits)
  | float bits => some (.float bits)
  | pointer pointee => some (.pointer pointee)
  | array elem length => some (.array elem length)
  | record fields => some (.record fields)
  | function params ret variadic => some (.function params ret variadic)
  | named _ | body .. => none

/-- A request asks for a structure with a name. -/
def IsNamed (r : TypeRequest) : Prop := ∃ name, r = named name

/-- Different requests describe different types. -/
theorem description?_inj (h : r.description? = some ty) (h' : r'.description? = some ty) :
    r = r' := by
  cases r <;> cases h <;> cases r' <;> cases h' <;> rfl

/-- A type that is described by its components has no name. -/
theorem structName?_of_description? (h : r.description? = some ty) : ty.structName? = none := by
  cases r <;> cases h <;> rfl

/-- A type is what a request asks for. A structure with a name may have got a body. -/
def Yields (r : TypeRequest) (ty : IrType) : Prop :=
  r.description? = some ty ∨ ∃ name body, r = named name ∧ ty = .named name body

/-- There is no description of a structure with a name. -/
theorem IsNamed.description? (h : r.IsNamed) : r.description? = none := by
  obtain ⟨name, rfl⟩ := h
  rfl

end TypeRequest

namespace TypeTable

variable {t t' t'' : TypeTable} {r : TypeRequest} {a : TypeAnswer} {ty : IrType} {id : TypeId}

/-- The answer to a request, and the table behind it. -/
def answer (t : TypeTable) : TypeRequest → Checked (TypeAnswer × TypeTable)
  | .void => interned .void
  | .int bits => interned (.int bits)
  | .float bits => interned (.float bits)
  | .pointer pointee => interned (.pointer pointee)
  | .array elem length => interned (.array elem length)
  | .record fields => interned (.record fields)
  | .function params ret variadic => interned (.function params ret variadic)
  | .named name => .ok (.type (t.namedStruct name).1, (t.namedStruct name).2)
  | .body id fields => do
    let (done, t') ← t.setStructBody id fields
    return (.filled done, t')
where
  /-- The answer to a request for a type that is described by its components. -/
  interned (ty : IrType) : Checked (TypeAnswer × TypeTable) :=
    .ok (.type (t.intern ty).1, (t.intern ty).2)

/-- The answers to requests one after the other, and the table behind the last. -/
def answers (t : TypeTable) : List TypeRequest → Checked (List TypeAnswer × TypeTable)
  | [] => .ok ([], t)
  | r :: rest => do
    let (a, t) ← t.answer r
    let (as, t) ← t.answers rest
    return (a :: as, t)

/-! ### One request -/

/-- A type that is described by its components is entered by its description. -/
theorem answer_of_description? (h : r.description? = some ty) :
    t.answer r = .ok (.type (t.intern ty).1, (t.intern ty).2) := by
  cases r <;> cases h <;> rfl

/-- The answers to the first requests and to the others. -/
theorem answers_cons_eq_ok {rest : List TypeRequest} {as : List TypeAnswer}
    (h : t.answers (r :: rest) = .ok (as, t'')) :
    ∃ a t' as', t.answer r = .ok (a, t') ∧ t'.answers rest = .ok (as', t'') ∧ as = a :: as' := by
  obtain ⟨⟨a, t'⟩, ha, h⟩ := answer_bind_eq_ok_iff.1 h
  obtain ⟨⟨as', t₂⟩, has, h⟩ := answer_bind_eq_ok_iff.1 h
  cases h
  exact ⟨a, t', as', ha, has, rfl⟩

/-- What comes of a request: a type that is described by its components, a new structure with a
name, a structure with a body that it did not have, or nothing. -/
inductive Answered (t : TypeTable) : TypeRequest → TypeAnswer → TypeTable → Prop
  | interned {r : TypeRequest} {ty : IrType} (hr : r.description? = some ty) :
      Answered t r (.type (t.intern ty).1) (t.intern ty).2
  | named (name : String) : Answered t (.named name) (.type ⟨t.size⟩) (t.namedStruct name).2
  | filled {id : TypeId} {fields : List TypeId} {t' : TypeTable}
      (hset : t.setStructBody id fields = .ok (true, t')) :
      Answered t (.body id fields) (.filled true) t'
  | kept {id : TypeId} {fields : List TypeId}
      (hset : t.setStructBody id fields = .ok (false, t)) :
      Answered t (.body id fields) (.filled false) t

/-- There is nothing else that comes of a request. -/
theorem answered_of_answer (h : t.answer r = .ok (a, t')) : t.Answered r a t' := by
  cases hr : r.description? with
  | some ty =>
      rw [answer_of_description? hr] at h
      cases h
      exact .interned hr
  | none =>
      cases r with
      | named name =>
          cases h
          exact .named name
      | body id fields =>
          obtain ⟨⟨done, types⟩, hset, h⟩ := answer_bind_eq_ok_iff.1 h
          cases h
          cases done with
          | true => exact .filled hset
          | false =>
              cases eq_of_setStructBody hset
              exact .kept hset
      | _ => cases hr

/-- Behind a request every type is what it was, but for a structure that has got its body. -/
theorem Answered.get_of_ok (h : t.Answered r a t') (hty : t.get id = .ok ty) :
    t'.get id = .ok ty ∨ ∃ name fields, r = .body id fields ∧ a = .filled true ∧
      ty = .named name none ∧ t'.get id = .ok (.named name (some fields)) := by
  cases h with
  | interned hr => exact .inl (get_intern_of_ok _ hty)
  | named name => exact .inl (Checked.at_push _ hty)
  | @filled owner fields _ hset =>
      obtain ⟨name, howner, hget⟩ := get_setStructBody hset id
      by_cases heq : id = owner
      · subst heq
        rw [if_pos rfl] at hget
        cases howner.symm.trans hty
        exact .inr ⟨name, fields, rfl, rfl, rfl, hget⟩
      · rw [if_neg heq] at hget
        exact .inl (hget.trans hty)
  | kept => exact .inl hty

/-- A request keeps the index in step with the types. What is entered by its components stands in
both, and a structure with a name only among the types, also when it gets its body. -/
theorem Answered.isIndexed (h : t.Answered r a t') (ht : t.IsIndexed) : t'.IsIndexed := by
  cases h with
  | interned hr =>
      exact ht.intern (IrType.description?_eq_self _ (TypeRequest.structName?_of_description? hr))
  | named name => exact ht.namedStruct name
  | filled hset => exact ht.setStructBody hset
  | kept => exact ht

/-! ### Requests one after the other -/

/-- Two requests and their answers: a new structure is no other type, and a structure gets a body
once. -/
structure Apart (first second : TypeRequest × TypeAnswer) : Prop where
  types : ∀ {id}, first.2 = .type id → second.2 = .type id →
    ¬ first.1.IsNamed ∧ ¬ second.1.IsNamed
  bodies : ∀ {id fields fields'}, first = (.body id fields, .filled true) →
    second ≠ (.body id fields', .filled true)

/-- What a table says about the requests that have led to it. -/
structure Explains (t : TypeTable) (history : List (TypeRequest × TypeAnswer)) : Prop where
  indexed : t.IsIndexed
  types : ∀ {r id}, (r, .type id) ∈ history → ∃ ty, t.get id = .ok ty ∧ r.Yields ty
  bodies : ∀ {id fields}, (.body id fields, .filled true) ∈ history →
    ∃ name, t.get id = .ok (.named name (some fields))
  apart : history.Pairwise Apart

variable {history : List (TypeRequest × TypeAnswer)}

theorem explains_empty : empty.Explains [] where
  indexed := isIndexed_empty
  types h := absurd h List.not_mem_nil
  bodies h := absurd h List.not_mem_nil
  apart := .nil

/-- A type that has been answered stays what was asked for. -/
theorem Answered.yields (h : t.Answered r a t') {r' : TypeRequest} (hty : t.get id = .ok ty)
    (hyields : r'.Yields ty) : ∃ ty', t'.get id = .ok ty' ∧ r'.Yields ty' := by
  rcases h.get_of_ok hty with hsame | ⟨name, fields, -, -, rfl, hget⟩
  · exact ⟨ty, hsame, hyields⟩
  · refine ⟨_, hget, ?_⟩
    rcases hyields with hr | ⟨name', _, hr, hname⟩
    · cases TypeRequest.structName?_of_description? hr
    · cases hname
      exact .inr ⟨name, some fields, hr, rfl⟩

/-- The type that is answered is what was asked for. -/
theorem Answered.yields_self (h : t.Answered r (.type id) t') (ht : t.IsIndexed) :
    ∃ ty, t'.get id = .ok ty ∧ r.Yields ty := by
  cases h with
  | interned hr => exact ⟨_, get_intern ht _, .inl hr⟩
  | named name => exact ⟨_, Checked.at_push_size _ _, .inr ⟨name, none, rfl, rfl⟩⟩

/-- A body that has been filled in stays. -/
theorem Answered.get_body (h : t.Answered r a t') {name : String} {fields : List TypeId}
    (hid : t.get id = .ok (.named name (some fields))) :
    t'.get id = .ok (.named name (some fields)) := by
  rcases h.get_of_ok hid with hsame | ⟨_, _, -, -, hopaque, -⟩
  · exact hsame
  · cases hopaque

/-- A request and its answer are told apart from those before them. -/
theorem Explains.apart_of_answered (ht : t.Explains history) (h : t.Answered r a t')
    {e : TypeRequest × TypeAnswer} (he : e ∈ history) : Apart e (r, a) where
  types {id} hfirst hsecond := by
    obtain ⟨r₀, _⟩ := e
    cases hfirst
    cases hsecond
    obtain ⟨ty, hty, hyields⟩ := ht.types he
    cases h with
    | interned hr =>
        refine ⟨fun hnamed => ?_, fun hnamed => by cases hnamed.description?.symm.trans hr⟩
        -- What is described by its components would be a structure with a name.
        rcases hyields with hr₀ | ⟨name, body, -, rfl⟩
        · cases hnamed.description?.symm.trans hr₀
        · cases (get_intern_of_ok _ hty).symm.trans (get_intern ht.indexed _)
          cases TypeRequest.structName?_of_description? hr
    | named name => exact absurd (lt_size_of_get hty) (Nat.lt_irrefl _)
  bodies hfirst hsecond := by
    subst hfirst
    cases hsecond
    obtain ⟨name, hid⟩ := ht.bodies he
    cases h with
    | filled hset =>
        obtain ⟨_, hopaque, -⟩ := get_of_setStructBody hset
        cases hid.symm.trans hopaque

/-- One request later a table says what it said before, and what has been answered to the
request. -/
theorem Explains.step (ht : t.Explains history) (h : t.Answered r a t') :
    t'.Explains (history ++ [(r, a)]) where
  indexed := h.isIndexed ht.indexed
  types {r' id} hmem := by
    rcases List.mem_append.1 hmem with hold | hnew
    · obtain ⟨ty, hty, hyields⟩ := ht.types hold
      exact h.yields hty hyields
    · cases List.mem_singleton.1 hnew
      exact h.yields_self ht.indexed
  bodies {id fields} hmem := by
    rcases List.mem_append.1 hmem with hold | hnew
    · obtain ⟨name, hid⟩ := ht.bodies hold
      exact ⟨name, h.get_body hid⟩
    · cases List.mem_singleton.1 hnew
      cases h with
      | filled hset =>
          obtain ⟨name, -, hget⟩ := get_setStructBody hset id
          exact ⟨name, hget.trans (if_pos rfl)⟩
  apart := by
    refine List.pairwise_append.2 ⟨ht.apart, List.pairwise_singleton _ _, fun e he e' he' => ?_⟩
    cases List.mem_singleton.1 he'
    exact ht.apart_of_answered h he

variable {rs : List TypeRequest} {as : List TypeAnswer}

/-- There is an answer to every request. -/
theorem length_answers (h : t.answers rs = .ok (as, t')) : as.length = rs.length := by
  induction rs generalizing t as with
  | nil =>
      cases h
      rfl
  | cons r rest ih =>
      obtain ⟨a, t₁, as', -, hrest, rfl⟩ := answers_cons_eq_ok h
      rw [List.length_cons, List.length_cons, ih hrest]

/-- Some requests later a table says what it said before, and all that has been answered since. -/
theorem Explains.answers (ht : t.Explains history) (h : t.answers rs = .ok (as, t')) :
    t'.Explains (history ++ rs.zip as) := by
  induction rs generalizing t as history with
  | nil =>
      cases h
      simpa using ht
  | cons r rest ih =>
      obtain ⟨a, t₁, as', hr, hrest, rfl⟩ := answers_cons_eq_ok h
      have hlater := ih (ht.step (answered_of_answer hr)) hrest
      rwa [List.append_assoc, List.singleton_append] at hlater

/-- Some requests later every type is what it was, but for the structures that have got their
bodies. -/
theorem get_of_answers (h : t.answers rs = .ok (as, t')) (hty : t.get id = .ok ty) :
    t'.get id = .ok ty ∨ ∃ name fields, (.body id fields, .filled true) ∈ rs.zip as ∧
      ty = .named name none ∧ t'.get id = .ok (.named name (some fields)) := by
  induction rs generalizing t as ty with
  | nil =>
      cases h
      exact .inl hty
  | cons r rest ih =>
      obtain ⟨a, t₁, as', hr, hrest, rfl⟩ := answers_cons_eq_ok h
      rcases (answered_of_answer hr).get_of_ok hty with hsame | ⟨name, fields, rfl, rfl, rfl, hget⟩
      · exact (ih hrest hsame).imp_right fun ⟨name, fields, hmem, hty'⟩ =>
          ⟨name, fields, List.mem_cons_of_mem _ hmem, hty'⟩
      · refine .inr ⟨name, fields, List.mem_cons_self, rfl, ?_⟩
        rcases ih hrest hget with hsame | ⟨_, _, -, hopaque, -⟩
        · exact hsame
        · cases hopaque

/-! ### All requests -/

/-- Types by the requests for them. Those that are described by their components are the same
exactly when their descriptions are, a new structure is the same as no other type, and no structure
gets a second body. -/
structure AreToldApart (rs : List TypeRequest) (as : List TypeAnswer) : Prop where
  described : ∀ {i j : Nat} {r r' : TypeRequest} {id id' : TypeId},
    rs[i]? = some r → rs[j]? = some r' → r.description?.isSome → r'.description?.isSome →
      as[i]? = some (.type id) → as[j]? = some (.type id') → (id = id' ↔ r = r')
  named : ∀ {i j : Nat} {name : String} {id id' : TypeId}, rs[i]? = some (.named name) →
    as[i]? = some (.type id) → as[j]? = some (.type id') → i ≠ j → id ≠ id'
  bodies : ∀ {i j : Nat} {id : TypeId} {fields fields' : List TypeId},
    rs[i]? = some (.body id fields) → as[i]? = some (.filled true) →
      rs[j]? = some (.body id fields') → as[j]? = some (.filled true) → i = j

/-- What the answers say follows from what is said by the table in which they are looked up. -/
theorem Explains.areToldApart (ht : t.Explains (rs.zip as)) (hlength : as.length = rs.length) :
    AreToldApart rs as := by
  have hzip {i : Nat} {r : TypeRequest} {a : TypeAnswer} (hr : rs[i]? = some r)
      (ha : as[i]? = some a) : (rs.zip as)[i]? = some (r, a) :=
    List.getElem?_zip_eq_some.2 ⟨hr, ha⟩
  have hapart {i j : Nat} {e e' : TypeRequest × TypeAnswer} (he : (rs.zip as)[i]? = some e)
      (he' : (rs.zip as)[j]? = some e') (hlt : i < j) : Apart e e' := by
    obtain ⟨hi, rfl⟩ := List.getElem?_eq_some_iff.1 he
    obtain ⟨hj, rfl⟩ := List.getElem?_eq_some_iff.1 he'
    exact List.pairwise_iff_getElem.1 ht.apart i j hi hj hlt
  refine ⟨?_, ?_, ?_⟩
  · intro i j r r' id id' hr hr' hdesc hdesc' hid hid'
    obtain ⟨ty, hty⟩ := Option.isSome_iff_exists.1 hdesc
    obtain ⟨ty', hty'⟩ := Option.isSome_iff_exists.1 hdesc'
    have hget {i : Nat} {r : TypeRequest} {ty : IrType} {id : TypeId} (hr : rs[i]? = some r)
        (hid : as[i]? = some (.type id)) (hty : r.description? = some ty) :
        t.get id = .ok ty := by
      obtain ⟨found, hfound, hyields⟩ := ht.types (List.mem_of_getElem? (hzip hr hid))
      rcases hyields with hdesc | ⟨name, body, rfl, -⟩
      · cases hty.symm.trans hdesc
        exact hfound
      · cases hty
    constructor
    · rintro rfl
      cases (hget hr hid hty).symm.trans (hget hr' hid' hty')
      exact TypeRequest.description?_inj hty hty'
    · rintro rfl
      cases hty.symm.trans hty'
      exact ht.indexed.isUnique id id' ty (hget hr hid hty) (hget hr' hid' hty')
        (TypeRequest.structName?_of_description? hty)
  · rintro i j name id id' hr hid hid' hne rfl
    have hj : j < rs.length := hlength ▸ (List.getElem?_eq_some_iff.1 hid').1
    have he := hzip hr hid
    have he' := hzip (List.getElem?_eq_getElem hj) hid'
    rcases Nat.lt_or_gt_of_ne hne with hlt | hgt
    · exact ((hapart he he' hlt).types rfl rfl).1 ⟨name, rfl⟩
    · exact ((hapart he' he hgt).types rfl rfl).2 ⟨name, rfl⟩
  · intro i j id fields fields' hr hdone hr' hdone'
    have he := hzip hr hdone
    have he' := hzip hr' hdone'
    rcases Nat.lt_trichotomy i j with hlt | heq | hgt
    · exact absurd rfl ((hapart he he' hlt).bodies rfl)
    · exact heq
    · exact absurd rfl ((hapart he' he hgt).bodies rfl)

/-- A structure without body gets the one that is asked for, and nothing else happens to it or to
other types. Of every other type nothing comes of the request. -/
theorem answer_body (hty : t.get id = .ok ty) (fields : List TypeId) :
    (∃ name t', ty = .named name none ∧ t.answer (.body id fields) = .ok (.filled true, t') ∧
        ∀ other, t'.get other =
          if other = id then .ok (.named name (some fields)) else t.get other) ∨
      (∀ name, ty ≠ .named name none) ∧ t.answer (.body id fields) = .ok (.filled false, t) := by
  have hanswer : t.answer (.body id fields) =
      t.setStructBody id fields >>= fun p => pure (.filled p.1, p.2) := rfl
  cases hopaque : ty.isOpaque with
  | true =>
      obtain ⟨name, rfl⟩ : ∃ name, ty = .named name none := by
        unfold IrType.isOpaque at hopaque
        split at hopaque
        · exact ⟨_, rfl⟩
        · cases hopaque
      have hset : ∃ t', t.setStructBody id fields = .ok (true, t') := by
        unfold setStructBody
        rw [hty]
        exact ⟨_, rfl⟩
      obtain ⟨t', hset⟩ := hset
      refine .inl ⟨name, t', rfl, by rw [hanswer, hset]; rfl, fun other => ?_⟩
      obtain ⟨_, hold, hget⟩ := get_setStructBody hset other
      cases hty.symm.trans hold
      exact hget
  | false =>
      have hset : t.setStructBody id fields = .ok (false, t) := by
        unfold setStructBody
        rw [hty]
        cases ty with
        | named name body =>
            cases body with
            | none => cases hopaque
            | some body => rfl
        | _ => rfl
      refine .inr ⟨?_, by rw [hanswer, hset]; rfl⟩
      rintro name rfl
      cases hopaque

/-- Whatever is asked of a type table, types are the same when their positions are, and the index
is the inverse of the table. A position that has been answered denotes what was asked for. What it
denotes stays as it is, but for the one body that a structure gets, and a request for a body does
what it says exactly when there was none. -/
theorem types_keep_their_identity {before after : List TypeRequest} {earlier later : List TypeAnswer}
    (hbefore : empty.answers before = .ok (earlier, t))
    (hafter : t.answers after = .ok (later, t')) :
    AreToldApart (before ++ after) (earlier ++ later) ∧
      (∀ ty id, t'.interned.get? ty = some id ↔ t'.get id = .ok ty ∧ ty.structName? = none) ∧
      (∀ r id, (r, .type id) ∈ (before ++ after).zip (earlier ++ later) →
        ∃ ty, t'.get id = .ok ty ∧ r.Yields ty) ∧
      (∀ id ty, t.get id = .ok ty → t'.get id = .ok ty ∨
        ∃ name fields, (.body id fields, .filled true) ∈ after.zip later ∧
          ty = .named name none ∧ t'.get id = .ok (.named name (some fields))) ∧
      ∀ id ty fields, t.get id = .ok ty →
        (∃ name t'', ty = .named name none ∧ t.answer (.body id fields) = .ok (.filled true, t'') ∧
          ∀ other, t''.get other =
            if other = id then .ok (.named name (some fields)) else t.get other) ∨
        (∀ name, ty ≠ .named name none) ∧ t.answer (.body id fields) = .ok (.filled false, t) := by
  have hlength := length_answers hbefore
  have hexplains := (explains_empty.answers hbefore).answers hafter
  rw [List.nil_append, ← List.zip_append hlength.symm] at hexplains
  refine ⟨hexplains.areToldApart ?_, fun ty id => hexplains.indexed.interned_eq_some_iff,
    fun r id hmem => hexplains.types hmem,
    fun id ty hty => get_of_answers hafter hty, fun id ty fields hty => answer_body hty fields⟩
  rw [List.length_append, List.length_append, hlength, length_answers hafter]

/-- Two structures of one name, of which the first gets its body and then is asked to get another,
and a pointer to it that is asked for twice. -/
theorem types_keep_their_identity_twins : ∃ earlier later t t',
    empty.answers [.int 32, .named "Node", .named "Node", .pointer ⟨1⟩] = .ok (earlier, t) ∧
      t.answers [.body ⟨1⟩ [⟨0⟩, ⟨3⟩], .pointer ⟨1⟩, .body ⟨1⟩ []] = .ok (later, t') ∧
      earlier ++ later = [.type ⟨0⟩, .type ⟨1⟩, .type ⟨2⟩, .type ⟨3⟩, .filled true, .type ⟨3⟩,
        .filled false] ∧
      AreToldApart ([.int 32, .named "Node", .named "Node", .pointer ⟨1⟩] ++
        [.body ⟨1⟩ [⟨0⟩, ⟨3⟩], .pointer ⟨1⟩, .body ⟨1⟩ []]) (earlier ++ later) := by
  have hbefore : empty.answers [.int 32, .named "Node", .named "Node", .pointer ⟨1⟩] = .ok
      ([.type ⟨0⟩, .type ⟨1⟩, .type ⟨2⟩, .type ⟨3⟩],
        ⟨#[.int 32, .named "Node" none, .named "Node" none, .pointer ⟨1⟩],
          ⟨[(.pointer ⟨1⟩, ⟨3⟩), (.int 32, ⟨0⟩)]⟩⟩) := by
    decide +kernel
  have hafter : answers ⟨#[.int 32, .named "Node" none, .named "Node" none, .pointer ⟨1⟩],
        ⟨[(.pointer ⟨1⟩, ⟨3⟩), (.int 32, ⟨0⟩)]⟩⟩
      [.body ⟨1⟩ [⟨0⟩, ⟨3⟩], .pointer ⟨1⟩, .body ⟨1⟩ []] = .ok
        ([.filled true, .type ⟨3⟩, .filled false],
          ⟨#[.int 32, .named "Node" (some [⟨0⟩, ⟨3⟩]), .named "Node" none, .pointer ⟨1⟩],
            ⟨[(.pointer ⟨1⟩, ⟨3⟩), (.int 32, ⟨0⟩)]⟩⟩) := by
    decide +kernel
  exact ⟨_, _, _, _, hbefore, hafter, rfl, (types_keep_their_identity hbefore hafter).1⟩

end TypeTable

end SsaCompiler
