/-
# The choice among overloads

A call chooses among the callables with its name. The callable that takes exactly the types of the
arguments wins, and there is at most one, since a second one is turned away when it is declared.
Without it the callables count that take the arguments loosely, and there has to be one of them
alone. Neither looks at the order of declaration, so the choice does not depend on it.

The choice is made in one pass that keeps the best tier it has met so far and the candidates that
have it, which comes to the same as listing the positions of both tiers. It answers with a position,
at which there always is an entry of the table.
-/

import SsaCompiler.Symbols.OperatorTable
import Mathlib.Data.List.Induction

namespace SsaCompiler

/-! ### The choice by the positions of both tiers -/

section Search

variable {tier : Tier} {tiers : List (Option Tier)} {start i : Nat}

/-- The positions at which a candidate has a given tier, counted from `start`. -/
def positionsOf (tier : Tier) (start : Nat) : List (Option Tier) → List Nat
  | [] => []
  | t :: rest =>
    if t = some tier then start :: positionsOf tier (start + 1) rest
    else positionsOf tier (start + 1) rest

namespace Lead

/-- What a pass has found out when `exact` and `aliased` are the positions of the candidates that
fit exactly and loosely. -/
def ofFound : List Nat → List Nat → Lead
  | [], [] => ⟨none, []⟩
  | [], aliased => ⟨some .aliased, aliased⟩
  | exact, _ => ⟨some .exact, exact⟩

/-- One more candidate that fits exactly. -/
theorem meet_exact (exact aliased : List Nat) :
    (ofFound exact aliased).meet i (some .exact) = ofFound (exact ++ [i]) aliased := by
  cases exact <;> cases aliased <;> rfl

/-- One more candidate that fits loosely. -/
theorem meet_aliased (exact aliased : List Nat) :
    (ofFound exact aliased).meet i (some .aliased) = ofFound exact (aliased ++ [i]) := by
  cases exact <;> cases aliased <;> rfl

/-- A pass finds the positions of both tiers. -/
theorem pass_ofFound (exact aliased : List Nat) :
    (ofFound exact aliased).pass start tiers =
      ofFound (exact ++ positionsOf .exact start tiers)
        (aliased ++ positionsOf .aliased start tiers) := by
  induction tiers generalizing start exact aliased with
  | nil => simp [pass, positionsOf]
  | cons t rest ih =>
      rw [pass]
      match t with
      | none => simp [meet, ih, positionsOf]
      | some .exact => simp [meet_exact, ih, positionsOf]
      | some .aliased => simp [meet_aliased, ih, positionsOf]

end Lead

/-- The positions that are listed are those that have the tier. -/
theorem mem_positionsOf_iff :
    i ∈ positionsOf tier start tiers ↔ start ≤ i ∧ tiers[i - start]? = some (some tier) := by
  induction tiers generalizing start with
  | nil => simp [positionsOf]
  | cons t rest ih =>
      have hrest : i ∈ positionsOf tier (start + 1) rest ↔
          start + 1 ≤ i ∧ (t :: rest)[i - start]? = some (some tier) := by
        rw [ih]
        refine and_congr_right fun hle => ?_
        rw [show i - start = i - (start + 1) + 1 from by omega, List.getElem?_cons_succ]
      unfold positionsOf
      split
      next ht =>
        rw [List.mem_cons, hrest]
        constructor
        · rintro (rfl | ⟨hle, hget⟩)
          · exact ⟨Nat.le_refl i, by simp [ht]⟩
          · exact ⟨by omega, hget⟩
        · rintro ⟨hle, hget⟩
          rcases Nat.eq_or_lt_of_le hle with rfl | hlt
          · exact .inl rfl
          · exact .inr ⟨hlt, hget⟩
      next ht =>
        rw [hrest]
        refine ⟨fun ⟨hle, hget⟩ => ⟨by omega, hget⟩, fun ⟨hle, hget⟩ => ⟨?_, hget⟩⟩
        rcases Nat.eq_or_lt_of_le hle with rfl | hlt
        · rw [Nat.sub_self, List.getElem?_cons_zero, Option.some.injEq] at hget
          exact absurd hget ht
        · exact hlt

namespace Resolution

/-- What is chosen is among the positions. -/
theorem mem_of_ofPositions {positions : List Nat} (h : ofPositions positions = found i) :
    i ∈ positions := by
  unfold ofPositions at h
  split at h <;> cases h
  exact List.mem_singleton_self i

/-- The choice is among the candidates that fit exactly, and if there are none, among those that fit
loosely. -/
theorem pick_eq_ofPositions : pick tiers = ofPositions (match positionsOf .exact 0 tiers with
    | [] => positionsOf .aliased 0 tiers
    | best => best) := by
  have hpass : (Lead.ofFound [] []).pass 0 tiers =
      Lead.ofFound (positionsOf .exact 0 tiers) (positionsOf .aliased 0 tiers) :=
    Lead.pass_ofFound [] []
  rw [pick, show Lead.mk none [] = Lead.ofFound [] [] from rfl, hpass]
  cases positionsOf .exact 0 tiers with
  | nil => cases positionsOf .aliased 0 tiers <;> rfl
  | cons i rest => rfl

/-- What is picked is a candidate that fits. -/
theorem exists_of_pick (h : pick tiers = found i) : ∃ tier, tiers[i]? = some (some tier) := by
  have hmem : ∃ tier, i ∈ positionsOf tier 0 tiers := by
    rw [pick_eq_ofPositions] at h
    split at h
    · exact ⟨.aliased, mem_of_ofPositions h⟩
    · exact ⟨.exact, mem_of_ofPositions h⟩
  obtain ⟨tier, hmem⟩ := hmem
  exact ⟨tier, (mem_positionsOf_iff.1 hmem).2⟩

theorem lt_of_pick (h : pick tiers = found i) : i < tiers.length := by
  obtain ⟨tier, hi⟩ := exists_of_pick h
  exact (List.getElem?_eq_some_iff.1 hi).1

end Resolution

/-- The overload that is found for arguments is one of the overloads. -/
theorem OverloadSet.exists_get?_of_resolve {set : OverloadSet} {pointee : TypeRelation}
    {args : List TypeId} (h : set.resolve pointee args = .found i) : ∃ o, set.get? i = some o := by
  have hlt := Resolution.lt_of_pick h
  rw [List.length_map] at hlt
  exact ⟨set.overloads[i], List.getElem?_eq_getElem hlt⟩

end Search

/-! ### How well arguments fit -/

/-- The types that a callable takes. -/
def Overload.types (o : Overload) : List TypeId :=
  o.params.map (·.ty)

/-- A callable takes as many arguments as there are, each of its own type or of a type that is a
pointer to its own type or that its own type is a pointer to. -/
def Overload.Admits (pointee : TypeRelation) (args : List TypeId) (o : Overload) : Prop :=
  args.length = o.types.length ∧
    ∀ pair ∈ args.zip o.types,
      pair.1 = pair.2 ∨ pointee pair.1 = some pair.2 ∨ pointee pair.2 = some pair.1

instance (pointee : TypeRelation) (args : List TypeId) :
    DecidablePred (Overload.Admits pointee args) :=
  fun o => inferInstanceAs (Decidable (_ ∧ ∀ pair ∈ args.zip o.types, _))

variable {pointee : TypeRelation} {args params : List TypeId} {tier : Tier}
  {tiers : List (Option Tier)} {start i j : Nat}

namespace Tier

/-- One argument fits one parameter when the types are equal or one is a pointer to the other. -/
theorem isSome_ofPosition_iff {arg param : TypeId} :
    (ofPosition pointee arg param).isSome ↔
      arg = param ∨ pointee arg = some param ∨ pointee param = some arg := by
  unfold ofPosition TypeRelation.aliases
  split
  · simp [*]
  · split <;> simp_all

/-- One argument fits one parameter exactly when the types are equal. -/
theorem ofPosition_eq_exact_iff {arg param : TypeId} :
    ofPosition pointee arg param = some exact ↔ arg = param := by
  unfold ofPosition
  split
  · simp [*]
  · split <;> simp [*]

/-- The worse of two tiers is exact when both are. -/
theorem worse_eq_exact_iff {a b : Tier} : a.worse b = exact ↔ a = exact ∧ b = exact := by
  cases a <;> cases b <;> decide

/-- The first argument and the others are compared apart. -/
theorem ofMatch_cons {arg param : TypeId} :
    ofMatch pointee (arg :: args) (param :: params) =
      (ofPosition pointee arg param).bind fun here =>
        (ofMatch pointee args params).map here.worse := by
  rw [ofMatch]
  cases ofPosition pointee arg param <;> cases ofMatch pointee args params <;> rfl

/-- Arguments fit exactly when they have the types of the parameters. -/
theorem ofMatch_eq_exact_iff : ofMatch pointee args params = some exact ↔ args = params := by
  induction args generalizing params with
  | nil => cases params <;> simp [ofMatch]
  | cons arg args ih =>
      cases params with
      | nil => simp [ofMatch]
      | cons param params =>
          have hfirst : ofPosition pointee arg param = some exact ↔ arg = param :=
            ofPosition_eq_exact_iff
          rw [ofMatch_cons, List.cons.injEq, ← ih, ← hfirst]
          simp [Option.bind_eq_some_iff, worse_eq_exact_iff]

/-- Arguments fit when there are as many as parameters and each fits. -/
theorem isSome_ofMatch_iff :
    (ofMatch pointee args params).isSome ↔
      args.length = params.length ∧
        ∀ pair ∈ args.zip params,
          pair.1 = pair.2 ∨ pointee pair.1 = some pair.2 ∨ pointee pair.2 = some pair.1 := by
  induction args generalizing params with
  | nil => cases params <;> simp [ofMatch]
  | cons arg args ih =>
      cases params with
      | nil => simp [ofMatch]
      | cons param params =>
          have hmatch : (ofMatch pointee (arg :: args) (param :: params)).isSome ↔
              (ofPosition pointee arg param).isSome ∧ (ofMatch pointee args params).isSome := by
            rw [ofMatch_cons]
            cases ofPosition pointee arg param <;> simp
          rw [hmatch, ih, isSome_ofPosition_iff, List.zip_cons_cons, List.forall_mem_cons]
          rw [List.length_cons, List.length_cons, Nat.add_right_cancel_iff, and_left_comm]

/-- Arguments that do not have the types of the parameters fit loosely or not at all. -/
theorem ofMatch_eq_aliased_iff (hne : args ≠ params) :
    ofMatch pointee args params = some aliased ↔ (ofMatch pointee args params).isSome := by
  have hexact : ofMatch pointee args params ≠ some exact := mt ofMatch_eq_exact_iff.1 hne
  match h : ofMatch pointee args params with
  | none => simp
  | some aliased => simp
  | some exact => exact absurd h hexact

end Tier

/-! ### Positions -/

/-- There are as many positions as candidates with the tier. -/
theorem length_positionsOf :
    (positionsOf tier start tiers).length = tiers.countP (· = some tier) := by
  induction tiers generalizing start with
  | nil => rfl
  | cons t rest ih =>
      unfold positionsOf
      split <;> simp [*]

/-- No position is listed twice. -/
theorem nodup_positionsOf : (positionsOf tier start tiers).Nodup := by
  induction tiers generalizing start with
  | nil => exact List.nodup_nil
  | cons t rest ih =>
      unfold positionsOf
      split
      · refine List.nodup_cons.2 ⟨fun hmem => ?_, ih⟩
        have := (mem_positionsOf_iff.1 hmem).1
        omega
      · exact ih

namespace Resolution

/-- A candidate that alone fits exactly is chosen. -/
theorem pick_eq_found (hi : tiers[i]? = some (some .exact))
    (hall : ∀ j, tiers[j]? = some (some .exact) → j = i) : pick tiers = found i := by
  have honly : positionsOf .exact 0 tiers = [i] := by
    refine List.perm_singleton.1 ((List.perm_ext_iff_of_nodup nodup_positionsOf
      (List.pairwise_singleton _ i)).2 fun j => ?_)
    rw [mem_positionsOf_iff, List.mem_singleton, Nat.sub_zero]
    exact ⟨fun h => hall j h.2, fun h => ⟨Nat.zero_le j, h ▸ hi⟩⟩
  rw [pick_eq_ofPositions, honly]
  rfl

/-- Where none fits exactly the choice is among those that fit loosely. -/
theorem pick_of_none_exact (hnone : some .exact ∉ tiers) :
    pick tiers = ofPositions (positionsOf .aliased 0 tiers) := by
  have hempty : positionsOf .exact 0 tiers = [] :=
    List.eq_nil_iff_forall_not_mem.2 fun i hi =>
      hnone (List.mem_of_getElem? (mem_positionsOf_iff.1 hi).2)
  rw [pick_eq_ofPositions, hempty]

end Resolution

/-! ### Sets of overloads -/

namespace OverloadSet

variable {s s' : OverloadSet} {o o' : Overload}

/-- No two callables take the same types. -/
def IsDistinct (s : OverloadSet) : Prop :=
  s.overloads.Pairwise fun a b => a.types ≠ b.types

/-- The set after callables were offered to it one after the other. One that it does not accept
changes nothing. -/
def offered (os : List Overload) : OverloadSet :=
  os.foldl (fun s o => ((s.insert o).map Prod.snd).getD s) empty

/-- A callable is accepted when none takes the same types. -/
theorem insert_eq_some_iff :
    s.insert o = some (i, s') ↔
      (∀ a ∈ s.overloads, a.types ≠ o.types) ∧
        i = s.overloads.length ∧ s' = ⟨s.overloads ++ [o]⟩ := by
  unfold insert
  split
  next hany =>
    obtain ⟨a, ha, hsame⟩ := List.any_eq_true.1 hany
    have htypes : a.types = o.types := by simpa [sameTypes, Overload.types] using hsame
    exact ⟨fun h => (Option.some_ne_none _ h.symm).elim, fun h => absurd htypes (h.1 a ha)⟩
  next hany =>
    have hnone : ∀ a ∈ s.overloads, a.types ≠ o.types := fun a ha heq =>
      hany (List.any_eq_true.2 ⟨a, ha, by simpa [sameTypes, Overload.types] using heq⟩)
    rw [Option.some.injEq, Prod.mk.injEq]
    constructor
    · rintro ⟨rfl, rfl⟩
      exact ⟨hnone, rfl, rfl⟩
    · rintro ⟨-, rfl, rfl⟩
      exact ⟨rfl, rfl⟩

/-- Callables that are accepted take types that no other takes. -/
theorem IsDistinct.insert (h : s.IsDistinct) (hi : s.insert o = some (i, s')) :
    s'.IsDistinct := by
  obtain ⟨hnone, -, rfl⟩ := insert_eq_some_iff.1 hi
  exact List.pairwise_append.2
    ⟨h, List.pairwise_singleton _ _, fun a ha b hb => List.mem_singleton.1 hb ▸ hnone a ha⟩

/-- Whatever was offered, no two callables take the same types. -/
theorem isDistinct_offered (os : List Overload) : (offered os).IsDistinct := by
  induction os using List.reverseRecOn with
  | nil => exact List.Pairwise.nil
  | append_singleton os o ih =>
      have hstep : offered (os ++ [o]) =
          (((offered os).insert o).map Prod.snd).getD (offered os) := by
        rw [offered, List.foldl_append]
        rfl
      rw [hstep]
      cases h : (offered os).insert o with
      | none => exact ih
      | some result => exact ih.insert h

/-- The order of the callables does not matter for whether they are distinct. -/
theorem IsDistinct.of_perm (h : s.IsDistinct) (hperm : s'.overloads.Perm s.overloads) :
    s'.IsDistinct :=
  (hperm.pairwise_iff fun hne => hne.symm).2 h

/-- At most one callable takes given types. -/
theorem IsDistinct.eq_of_types_eq (h : s.IsDistinct) (hi : s.get? i = some o)
    (hj : s.get? j = some o') (heq : o.types = o'.types) : i = j := by
  obtain ⟨hilt, rfl⟩ := List.getElem?_eq_some_iff.1 hi
  obtain ⟨hjlt, rfl⟩ := List.getElem?_eq_some_iff.1 hj
  have hdistinct := List.pairwise_iff_getElem.1 h
  rcases Nat.lt_trichotomy i j with hlt | rfl | hlt
  · exact absurd heq (hdistinct i j hilt hjlt hlt)
  · rfl
  · exact absurd heq.symm (hdistinct j i hjlt hilt hlt)

/-- How well arguments fit the callables of a set. -/
def fits (s : OverloadSet) (pointee : TypeRelation) (args : List TypeId) : List (Option Tier) :=
  s.overloads.map fun o => Tier.ofMatch pointee args o.types

/-- A call chooses by how well its arguments fit. -/
theorem resolve_eq_pick : s.resolve pointee args = Resolution.pick (s.fits pointee args) :=
  rfl

/-- The callable at a position is the one whose tier is at that position. -/
theorem getElem?_fits_eq_some_iff {t : Option Tier} :
    (s.fits pointee args)[i]? = some t ↔
      ∃ o, s.get? i = some o ∧ Tier.ofMatch pointee args o.types = t := by
  rw [fits, List.getElem?_map, Option.map_eq_some_iff]
  rfl

/-- The callable that takes exactly the types of the arguments is found. -/
theorem IsDistinct.resolve_eq_found (h : s.IsDistinct) (hi : s.get? i = some o)
    (htypes : o.types = args) : s.resolve pointee args = .found i := by
  rw [resolve_eq_pick]
  refine Resolution.pick_eq_found
    (getElem?_fits_eq_some_iff.2 ⟨o, hi, Tier.ofMatch_eq_exact_iff.2 htypes.symm⟩) fun j hj => ?_
  obtain ⟨o', hj, hexact⟩ := getElem?_fits_eq_some_iff.1 hj
  exact (h.eq_of_types_eq hi hj (htypes.trans (Tier.ofMatch_eq_exact_iff.1 hexact))).symm

/-- Where no callable takes exactly the types of the arguments, those that fit loosely are those
that admit them. -/
theorem ofMatch_eq_aliased_iff_admits (hnone : ∀ o ∈ s.overloads, o.types ≠ args)
    (ho : o ∈ s.overloads) :
    Tier.ofMatch pointee args o.types = some .aliased ↔ o.Admits pointee args :=
  (Tier.ofMatch_eq_aliased_iff (hnone o ho).symm).trans Tier.isSome_ofMatch_iff

/-- Without an exact match the choice is among the callables that admit the arguments. -/
theorem resolve_of_none_exact (s : OverloadSet) (pointee : TypeRelation)
    (hnone : ∀ o ∈ s.overloads, o.types ≠ args) :
    ∃ positions : List Nat,
      s.resolve pointee args = .ofPositions positions ∧
        positions.length = s.overloads.countP (·.Admits pointee args) ∧
        ∀ i ∈ positions, ∃ o, s.get? i = some o ∧ o.Admits pointee args := by
  refine ⟨positionsOf .aliased 0 (s.fits pointee args), ?_, ?_, fun i hi => ?_⟩
  · refine Resolution.pick_of_none_exact fun hmem => ?_
    obtain ⟨o, ho, hexact⟩ := List.mem_map.1 hmem
    exact hnone o ho (Tier.ofMatch_eq_exact_iff.1 hexact).symm
  · rw [length_positionsOf, fits, List.countP_map]
    refine List.countP_congr fun o ho => ?_
    simpa using ofMatch_eq_aliased_iff_admits hnone ho
  · obtain ⟨o, ho, haliased⟩ := getElem?_fits_eq_some_iff.1 (mem_positionsOf_iff.1 hi).2
    exact ⟨o, ho, (ofMatch_eq_aliased_iff_admits hnone (List.mem_of_getElem? ho)).1 haliased⟩

/-- What the choice comes to when no callable takes exactly the types of the arguments: it is settled
by how many callables admit them. -/
theorem resolve_by_count (s : OverloadSet) (pointee : TypeRelation)
    (hnone : ∀ o ∈ s.overloads, o.types ≠ args) :
    match s.overloads.countP (·.Admits pointee args) with
    | 0 => s.resolve pointee args = .notFound
    | 1 => ∃ i o, s.get? i = some o ∧ o.Admits pointee args ∧ s.resolve pointee args = .found i
    | k => s.resolve pointee args = .ambiguous k := by
  obtain ⟨positions, hresolve, hlength, hadmits⟩ := s.resolve_of_none_exact pointee hnone
  rw [← hlength, hresolve]
  match positions with
  | [] => rfl
  | [i] =>
    obtain ⟨o, hget, ho⟩ := hadmits i (List.mem_singleton_self i)
    exact ⟨i, o, hget, ho, rfl⟩
  | _ :: _ :: _ => rfl

/-! ### The order of declaration -/

/-- The answers of two sets are alike: the same callable, wherever it stands, or the same failure. -/
inductive AnswersAlike (s s' : OverloadSet) : Resolution → Resolution → Prop
  /-- Both find the same callable. -/
  | found {i j : Nat} {o : Overload} (hi : s.get? i = some o) (hj : s'.get? j = some o) :
      AnswersAlike s s' (.found i) (.found j)
  /-- Neither finds one. -/
  | notFound : AnswersAlike s s' .notFound .notFound
  /-- Both find as many that are equally good. -/
  | ambiguous (k : Nat) : AnswersAlike s s' (.ambiguous k) (.ambiguous k)

/-- Where one callable alone admits the arguments, any two that do are the same. -/
theorem eq_of_countP_eq_one {p : Overload → Bool} {l : List Overload} (h : l.countP p = 1)
    (ho : o ∈ l) (hpo : p o) (ho' : o' ∈ l) (hpo' : p o') : o = o' := by
  obtain ⟨only, honly⟩ := List.length_eq_one_iff.1 (List.countP_eq_length_filter.symm.trans h)
  have heq : ∀ a ∈ l, p a → a = only := fun a ha hpa =>
    List.mem_singleton.1 (honly ▸ List.mem_filter.2 ⟨ha, hpa⟩)
  rw [heq o ho hpo, heq o' ho' hpo']

/-- The choice does not depend on the order in which the callables were declared. -/
theorem IsDistinct.answersAlike (h : s.IsDistinct) (hperm : s'.overloads.Perm s.overloads) :
    AnswersAlike s s' (s.resolve pointee args) (s'.resolve pointee args) := by
  by_cases hexact : ∃ o ∈ s.overloads, o.types = args
  · obtain ⟨o, ho, htypes⟩ := hexact
    obtain ⟨i, hi⟩ := List.mem_iff_getElem?.1 ho
    obtain ⟨j, hj⟩ := List.mem_iff_getElem?.1 (hperm.mem_iff.2 ho)
    rw [h.resolve_eq_found hi htypes, (h.of_perm hperm).resolve_eq_found hj htypes]
    exact .found hi hj
  · have hnone : ∀ o ∈ s.overloads, o.types ≠ args := fun o ho heq => hexact ⟨o, ho, heq⟩
    have hnone' : ∀ o ∈ s'.overloads, o.types ≠ args := fun o ho => hnone o (hperm.mem_iff.1 ho)
    have hs := s.resolve_by_count pointee hnone
    have hs' := s'.resolve_by_count pointee hnone'
    rw [hperm.countP_eq] at hs'
    match hcount : s.overloads.countP (·.Admits pointee args) with
    | 0 =>
      rw [hcount] at hs hs'
      rw [hs, hs']
      exact .notFound
    | 1 =>
      rw [hcount] at hs hs'
      obtain ⟨i, o, hi, ho, hfound⟩ := hs
      obtain ⟨j, o', hj, ho', hfound'⟩ := hs'
      have heq : o = o' :=
        eq_of_countP_eq_one hcount (List.mem_of_getElem? hi) (decide_eq_true ho)
          (hperm.mem_iff.1 (List.mem_of_getElem? hj)) (decide_eq_true ho')
      rw [hfound, hfound']
      exact .found hi (heq ▸ hj)
    | k + 2 =>
      rw [hcount] at hs hs'
      rw [hs, hs']
      exact .ambiguous (k + 2)

/-! ### The choice -/

/-- The choice among the callables that were accepted: the one that takes exactly the types of the
arguments, of which there is at most one; without it the one that alone admits them, and otherwise a
failure that says how many do; and all this whatever the order of the callables. -/
theorem resolve_offered (os : List Overload) (pointee : TypeRelation) (args : List TypeId) :
    (∀ i o, (offered os).get? i = some o → o.types = args →
      (offered os).resolve pointee args = .found i ∧
        ∀ j o', (offered os).get? j = some o' → o'.types = args → j = i) ∧
    ((∀ o ∈ (offered os).overloads, o.types ≠ args) →
      match (offered os).overloads.countP (·.Admits pointee args) with
      | 0 => (offered os).resolve pointee args = .notFound
      | 1 =>
        ∃ i o, (offered os).get? i = some o ∧ o.Admits pointee args ∧
          (offered os).resolve pointee args = .found i
      | k => (offered os).resolve pointee args = .ambiguous k) ∧
    ∀ s' : OverloadSet, s'.overloads.Perm (offered os).overloads →
      AnswersAlike (offered os) s' ((offered os).resolve pointee args)
        (s'.resolve pointee args) := by
  have hdistinct := isDistinct_offered os
  refine ⟨fun i o hi htypes => ⟨hdistinct.resolve_eq_found hi htypes, fun j o' hj htypes' => ?_⟩,
    (offered os).resolve_by_count pointee, fun s' => hdistinct.answersAlike⟩
  exact hdistinct.eq_of_types_eq hj hi (htypes'.trans htypes.symm)

/-- Three callables of one parameter of which the last takes the same type as the first, so that it is
not accepted. The first two types are pointers to the third. A call with the second type finds its
callable, also in the other order, and one with the third type finds two that are equally good. -/
theorem resolve_offered_pointers :
    let take := fun (n : Nat) (t : TypeId) =>
      (⟨"f", [.value t], t, false, ⟨n⟩, []⟩ : Overload)
    let os := [take 0 ⟨0⟩, take 1 ⟨1⟩, take 2 ⟨0⟩]
    let pointee : TypeRelation := fun t => if t = ⟨0⟩ ∨ t = ⟨1⟩ then some ⟨2⟩ else none
    (offered os).resolve pointee [⟨1⟩] = .found 1 ∧
      (offered os).resolve pointee [⟨2⟩] = .ambiguous 2 ∧
      AnswersAlike (offered os) ⟨(offered os).overloads.reverse⟩ (.found 1)
        (OverloadSet.resolve ⟨(offered os).overloads.reverse⟩ pointee [⟨1⟩]) := by
  intro take os pointee
  have hexact := (resolve_offered os pointee [⟨1⟩]).1 1 (take 1 ⟨1⟩) rfl rfl
  have hloose := (resolve_offered os pointee [⟨2⟩]).2.1 (by decide)
  have horder := (resolve_offered os pointee [⟨1⟩]).2.2 _ (List.reverse_perm _)
  rw [hexact.1] at horder
  exact ⟨hexact.1, hloose, horder⟩

end OverloadSet

end SsaCompiler
