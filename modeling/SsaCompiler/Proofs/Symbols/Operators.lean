/-
# The choice among operators

An operator that was entered under the key that is asked for is found at once, by its position. A
search among all operators would find the same one: it compares symbols and the sides that are
there before it compares types, so the only operator that fits exactly is the one with that key,
and no key is entered twice. The positions therefore only save the search.

What the search comes to is said by counting, as for callables.
-/

import SsaCompiler.Symbols.OperatorTable
import SsaCompiler.Proofs.Lower.Registry
import SsaCompiler.Proofs.Symbols.Resolution

namespace SsaCompiler

variable {pointee : TypeRelation} {tiers : List (Option Tier)} {i j : Nat}

/-- Where no candidate fits exactly the choice is settled by how many fit loosely. -/
theorem Resolution.pick_by_count (hnone : some .exact ∉ tiers) :
    match tiers.countP (· = some .aliased) with
    | 0 => pick tiers = .notFound
    | 1 => ∃ i, tiers[i]? = some (some .aliased) ∧ pick tiers = .found i
    | k => pick tiers = .ambiguous k := by
  have hlength : (positionsOf .aliased 0 tiers).length = tiers.countP (· = some .aliased) :=
    length_positionsOf
  rw [pick_of_none_exact hnone, ← hlength]
  match h : positionsOf .aliased 0 tiers with
  | [] => rfl
  | [i] =>
    have hi : i ∈ positionsOf .aliased 0 tiers := h ▸ List.mem_singleton_self i
    exact ⟨i, (mem_positionsOf_iff.1 hi).2, rfl⟩
  | _ :: _ :: _ => rfl

/-! ### Keys -/

namespace OperatorKey

variable {asked own : OperatorKey}

/-- How well an operator fits the key that is asked for: as well as the worst of its sides, and
not at all when it has another symbol or does not take the same sides. -/
def tier (pointee : TypeRelation) (asked own : OperatorKey) : Option Tier :=
  if own.sameShape asked then Tier.ofMatch pointee asked.sides own.sides else none

/-- What an operator takes on one side goes with what is there: both are missing, or the types are
equal or one is a pointer to the other. -/
def SideAdmits (pointee : TypeRelation) : Option TypeId → Option TypeId → Prop
  | none, none => True
  | some arg, some param => arg = param ∨ pointee arg = some param ∨ pointee param = some arg
  | _, _ => False

instance (pointee : TypeRelation) :
    (arg param : Option TypeId) → Decidable (SideAdmits pointee arg param)
  | none, none => .isTrue trivial
  | some arg, some param =>
    inferInstanceAs (Decidable (arg = param ∨ pointee arg = some param ∨ pointee param = some arg))
  | none, some _ => .isFalse id
  | some _, none => .isFalse id

/-- An operator with the symbol that is asked for takes what is there on both sides. -/
def Admits (pointee : TypeRelation) (asked own : OperatorKey) : Prop :=
  own.symbol = asked.symbol ∧ SideAdmits pointee asked.lhs own.lhs ∧
    SideAdmits pointee asked.rhs own.rhs

instance : DecidablePred (asked.Admits pointee) := fun _ => inferInstanceAs (Decidable (_ ∧ _ ∧ _))

/-- Keys of one shape are told apart by the types of their sides, although the list of these does
not say where they stand. -/
theorem sides_eq_iff (hshape : own.sameShape asked) : asked.sides = own.sides ↔ own = asked := by
  obtain ⟨lhs, symbol, rhs⟩ := asked
  obtain ⟨lhs', symbol', rhs'⟩ := own
  rw [eq_comm]
  cases lhs <;> cases lhs' <;> cases rhs <;> cases rhs' <;> simp_all [sameShape, sides]

/-- An operator fits exactly when it has the key that is asked for. -/
theorem tier_eq_exact_iff : tier pointee asked own = some .exact ↔ own = asked := by
  unfold tier
  split
  next hshape => rw [Tier.ofMatch_eq_exact_iff, sides_eq_iff hshape]
  next hshape =>
    refine ⟨fun h => (Option.some_ne_none _ h.symm).elim, fun h => absurd ?_ hshape⟩
    simp [h, sameShape]

/-- An operator fits when it admits the key that is asked for. -/
theorem isSome_tier_iff : (tier pointee asked own).isSome ↔ asked.Admits pointee own := by
  obtain ⟨lhs, symbol, rhs⟩ := asked
  obtain ⟨lhs', symbol', rhs'⟩ := own
  unfold tier
  split
  next hshape =>
    rw [Tier.isSome_ofMatch_iff]
    cases lhs <;> cases lhs' <;> cases rhs <;> cases rhs' <;>
      simp_all [sameShape, sides, Admits, SideAdmits]
  next hshape =>
    cases lhs <;> cases lhs' <;> cases rhs <;> cases rhs' <;>
      simp_all [sameShape, Admits, SideAdmits]

end OperatorKey

/-! ### Tables of operators -/

namespace OperatorTable

variable {t t' : OperatorTable} {key own : OperatorKey} {entry : OperatorEntry}

/-- The table after operators were offered to it one after the other. One whose key is taken changes
nothing. -/
def offered (ops : List (OperatorKey × OperatorEntry)) : OperatorTable :=
  ops.foldl (fun t op => ((t.insert op.1 op.2).map Prod.snd).getD t) empty

/-- One more operator that is offered. -/
theorem offered_append_singleton (ops : List (OperatorKey × OperatorEntry))
    (op : OperatorKey × OperatorEntry) :
    offered (ops ++ [op]) =
      (((offered ops).insert op.1 op.2).map Prod.snd).getD (offered ops) := by
  rw [offered, List.foldl_append]
  rfl

/-- Whatever was offered, the positions of keys are those of the operators. -/
theorem isIndexed_offered (ops : List (OperatorKey × OperatorEntry)) :
    (offered ops).IsIndexed := by
  induction ops using List.reverseRecOn with
  | nil => exact isIndexed_empty
  | append_singleton ops op ih =>
      rw [offered_append_singleton]
      cases h : (offered ops).insert op.1 op.2 with
      | none => exact ih
      | some result => exact ih.insert h

/-- An operator that was accepted stays at its position whatever is offered later. -/
theorem getElem?_offered_append {ops : List (OperatorKey × OperatorEntry)}
    {op : OperatorKey × OperatorEntry} (h : (offered ops).entries[i]? = some op)
    (later : List (OperatorKey × OperatorEntry)) :
    (offered (ops ++ later)).entries[i]? = some op := by
  induction later using List.reverseRecOn with
  | nil => rwa [List.append_nil]
  | append_singleton later new ih =>
      rw [← List.append_assoc, offered_append_singleton]
      cases hinsert : (offered (ops ++ later)).insert new.1 new.2 with
      | none => exact ih
      | some result =>
          obtain ⟨-, -, hresult⟩ := insert_eq_some_iff.1 hinsert
          obtain ⟨hlt, -⟩ := List.getElem?_eq_some_iff.1 ih
          simp only [Option.map_some, Option.getD_some, hresult]
          rwa [List.getElem?_append_left hlt]

/-! ### The search -/

/-- The search chooses by how well the operators fit. -/
theorem scan_eq_pick :
    t.scan pointee key = .pick (t.entries.map fun op => key.tier pointee op.1) :=
  rfl

/-- The operator at a position is the one whose tier is at that position. -/
theorem getElem?_tiers_eq_some_iff {tier : Option Tier} :
    (t.entries.map fun op => key.tier pointee op.1)[i]? = some tier ↔
      ∃ op, t.entries[i]? = some op ∧ key.tier pointee op.1 = tier := by
  rw [List.getElem?_map, Option.map_eq_some_iff]

/-- The search finds the operator with the key that is asked for. It fits exactly, and no other
does. -/
theorem IsIndexed.scan_eq_found (h : t.IsIndexed) (hi : t.positions.get? key = some i) :
    t.scan pointee key = .found i := by
  obtain ⟨entry, hentry⟩ := (h key i).1 hi
  rw [scan_eq_pick]
  refine Resolution.pick_eq_found (getElem?_tiers_eq_some_iff.2
    ⟨_, hentry, OperatorKey.tier_eq_exact_iff.2 rfl⟩) fun j hj => ?_
  obtain ⟨⟨own, other⟩, hother, hexact⟩ := getElem?_tiers_eq_some_iff.1 hj
  obtain rfl : own = key := OperatorKey.tier_eq_exact_iff.1 hexact
  exact Option.some.inj (((h own j).2 ⟨other, hother⟩).symm.trans hi)

/-- The positions only save the search. -/
theorem IsIndexed.lookup_eq_scan (h : t.IsIndexed) (pointee : TypeRelation) (key : OperatorKey) :
    t.lookup pointee key = t.scan pointee key := by
  unfold lookup
  cases hi : t.positions.get? key with
  | none => rfl
  | some i => exact (h.scan_eq_found hi).symm

/-- What a lookup finds admits the key that is asked for. -/
theorem IsIndexed.admits_of_lookup (h : t.IsIndexed) (hfound : t.lookup pointee key = .found i) :
    ∃ op, t.entries[i]? = some op ∧ key.Admits pointee op.1 := by
  rw [h.lookup_eq_scan, scan_eq_pick] at hfound
  obtain ⟨tier, htier⟩ := Resolution.exists_of_pick hfound
  obtain ⟨op, hop, htier⟩ := getElem?_tiers_eq_some_iff.1 htier
  exact ⟨op, hop, OperatorKey.isSome_tier_iff.1 (Option.isSome_iff_exists.2 ⟨tier, htier⟩)⟩

/-- What is chosen when no operator has the key that is asked for: the operator that alone admits
it, and otherwise a failure that says how many do. -/
theorem IsIndexed.lookup_by_count (h : t.IsIndexed) (pointee : TypeRelation)
    (hnone : t.positions.get? key = none) :
    match t.entries.countP (key.Admits pointee ·.1) with
    | 0 => t.lookup pointee key = .notFound
    | 1 =>
      ∃ i op, t.entries[i]? = some op ∧ key.Admits pointee op.1 ∧ t.lookup pointee key = .found i
    | k => t.lookup pointee key = .ambiguous k := by
  have hexact : ∀ op ∈ t.entries, key.tier pointee op.1 ≠ some .exact := fun op hop htier =>
    h.get?_eq_none_iff.1 hnone op hop (OperatorKey.tier_eq_exact_iff.1 htier)
  have hloose : ∀ op ∈ t.entries,
      key.tier pointee op.1 = some .aliased ↔ key.Admits pointee op.1 := by
    intro op hop
    rw [← OperatorKey.isSome_tier_iff]
    match htier : key.tier pointee op.1 with
    | none => simp
    | some .aliased => simp
    | some .exact => exact absurd htier (hexact op hop)
  have hcount : (t.entries.map fun op => key.tier pointee op.1).countP (· = some .aliased) =
      t.entries.countP (key.Admits pointee ·.1) := by
    rw [List.countP_map]
    exact List.countP_congr fun op hop => by simpa using hloose op hop
  have hpick := Resolution.pick_by_count fun hmem =>
    (List.mem_map.1 hmem).elim fun op hop => hexact op hop.1 hop.2
  rw [hcount, ← scan_eq_pick, ← h.lookup_eq_scan] at hpick
  split at hpick
  · exact hpick
  · obtain ⟨i, hi, hfound⟩ := hpick
    obtain ⟨op, hop, htier⟩ := getElem?_tiers_eq_some_iff.1 hi
    exact ⟨i, op, hop, (hloose op (List.mem_of_getElem? hop)).1 htier, hfound⟩
  · exact hpick

/-- The choice among the operators that were accepted is the one that a search among all of them
makes, and where no operator has the key that is asked for it is settled by how many admit it. A
key has a position exactly when an operator with that key stands there, and the position that an
operator gets when it is accepted is that of its own key and of no other, whatever is offered
before and later. -/
theorem lookup_offered (ops : List (OperatorKey × OperatorEntry)) (pointee : TypeRelation)
    (key : OperatorKey) :
    (offered ops).lookup pointee key = (offered ops).scan pointee key ∧
      ((offered ops).positions.get? key = none →
        match (offered ops).entries.countP (key.Admits pointee ·.1) with
        | 0 => (offered ops).lookup pointee key = .notFound
        | 1 =>
          ∃ i op, (offered ops).entries[i]? = some op ∧ key.Admits pointee op.1 ∧
            (offered ops).lookup pointee key = .found i
        | k => (offered ops).lookup pointee key = .ambiguous k) ∧
      (∀ i, (offered ops).positions.get? key = some i ↔
        ∃ entry, (offered ops).entries[i]? = some (key, entry)) ∧
      ∀ before own entry later i t, ops = before ++ (own, entry) :: later →
        (offered before).insert own entry = some (i, t) →
          (offered ops).entries[i]? = some (own, entry) ∧
            ((offered ops).positions.get? key = some i ↔ key = own) := by
  have hindexed := isIndexed_offered ops
  refine ⟨hindexed.lookup_eq_scan pointee key, hindexed.lookup_by_count pointee, hindexed key, ?_⟩
  rintro before own entry later i t rfl hinsert
  obtain ⟨-, rfl, rfl⟩ := insert_eq_some_iff.1 hinsert
  have haccepted : (offered (before ++ [(own, entry)])).entries[(offered before).entries.length]? =
      some (own, entry) := by
    rw [offered_append_singleton, hinsert]
    exact List.getElem?_concat_length
  have hstays := getElem?_offered_append haccepted later
  rw [List.append_assoc, List.singleton_append] at hstays
  refine ⟨hstays, (hindexed key _).trans ⟨?_, ?_⟩⟩
  · rintro ⟨entry', hentry⟩
    exact congrArg Prod.fst (Option.some.inj (hentry.symm.trans hstays))
  · rintro rfl
    exact ⟨entry, hstays⟩

/-- Three operators of one symbol, of which the last is offered again under its own key, so that
it is turned away. The first two types are pointers to the third. The key of the last operator is
found at the position that it got. A key with a type and a pointer in each other's place is found
by the search alone, and one with the third type on both sides fits both that take two sides. -/
theorem lookup_offered_pointers :
    let sum := fun (l r : Nat) => OperatorKey.binary ⟨l⟩ (.binary .add) ⟨r⟩
    let entry := fun (n : Nat) => (⟨⟨n⟩, [], ⟨0⟩, false, []⟩ : OperatorEntry)
    let ops := [(.before (.binary .add) ⟨2⟩, entry 0), (sum 0 2, entry 1), (sum 2 1, entry 2),
      (sum 2 1, entry 3)]
    let pointee : TypeRelation := fun t => if t = ⟨0⟩ ∨ t = ⟨1⟩ then some ⟨2⟩ else none
    (offered ops).entries[2]? = some (sum 2 1, entry 2) ∧
      (offered ops).positions.get? (sum 2 1) = some 2 ∧
      (offered ops).lookup pointee (sum 2 1) = .found 2 ∧
      (offered ops).lookup pointee (sum 2 0) = .found 1 ∧
      (offered ops).lookup pointee (sum 2 2) = .ambiguous 2 := by
  intro sum entry ops pointee
  have haccepted := (lookup_offered ops pointee (sum 2 1)).2.2.2 [_, _] (sum 2 1) (entry 2) [_] 2 _
    rfl rfl
  have hexact := (lookup_offered ops pointee (sum 2 1)).1
  have hloose := (lookup_offered ops pointee (sum 2 0)).1
  have hmany := (lookup_offered ops pointee (sum 2 2)).2.1 (by decide)
  exact ⟨haccepted.1, haccepted.2.2 rfl, hexact.trans (by decide), hloose.trans (by decide), hmany⟩

end OperatorTable

end SsaCompiler
