/-
# Tables

Finite maps kept as a list of entries, the newest key first. The tables of the compiler
are small, and a list makes the equality of two tables plain: two tables built by the
same operations are equal, not merely alike.
-/

namespace SsaCompiler

/-- A finite map from keys to entries. -/
structure Table (κ α : Type) where
  /-- The keys with their entries, newest first. -/
  entries : List (κ × α)
  deriving DecidableEq, Repr

namespace Table

variable {κ α : Type}

/-- The table without entries. -/
def empty : Table κ α := ⟨[]⟩

instance : Inhabited (Table κ α) := ⟨empty⟩

/-- The number of keys. -/
def size (t : Table κ α) : Nat := t.entries.length

/-- The keys, newest first. -/
def keys (t : Table κ α) : List κ := t.entries.map Prod.fst

/-- The entries whose value satisfies a test. -/
def filter (t : Table κ α) (keep : α → Bool) : Table κ α :=
  ⟨t.entries.filter fun entry => keep entry.2⟩

variable [DecidableEq κ]

/-- The entry of the first occurrence of a key in a list of entries. -/
def findIn (k : κ) : List (κ × α) → Option α
  | [] => none
  | (k', a) :: rest => if k' = k then some a else findIn k rest

/-- A list of entries in which the first occurrence of a key has a new value. -/
def replaceIn (k : κ) (a : α) : List (κ × α) → List (κ × α)
  | [] => []
  | (k', a') :: rest => if k' = k then (k, a) :: rest else (k', a') :: replaceIn k a rest

/-- The value of a key. -/
def get? (t : Table κ α) (k : κ) : Option α := findIn k t.entries

/-- Whether a key has a value. -/
def contains (t : Table κ α) (k : κ) : Bool := (t.get? k).isSome

/-- The table in which `k` has the value `a` and every other key is as before. -/
def insert (t : Table κ α) (k : κ) (a : α) : Table κ α :=
  if t.contains k then ⟨replaceIn k a t.entries⟩ else ⟨(k, a) :: t.entries⟩

/-- The table without the key `k`. -/
def erase (t : Table κ α) (k : κ) : Table κ α :=
  ⟨t.entries.filter fun entry => entry.1 ≠ k⟩

/-- The table in which the value of `k`, if there is one, has been changed. -/
def modify (t : Table κ α) (k : κ) (f : α → α) : Table κ α :=
  match t.get? k with
  | some a => t.insert k (f a)
  | none => t

variable {t : Table κ α} {k k' : κ} {a : α}

/-- What is found in a list of entries is one of them. -/
theorem mem_of_findIn {entries : List (κ × α)} (h : findIn k entries = some a) :
    (k, a) ∈ entries := by
  induction entries with
  | nil => cases h
  | cons entry rest ih =>
      obtain ⟨k', a'⟩ := entry
      unfold findIn at h
      split at h
      · rename_i heq
        cases h
        rw [heq]
        exact List.mem_cons_self
      · exact List.mem_cons_of_mem _ (ih h)

/-- An entry of a list in which every key occurs once is found. -/
theorem findIn_of_mem {entries : List (κ × α)}
    (hkeys : (entries.map Prod.fst).Nodup) (h : (k, a) ∈ entries) : findIn k entries = some a := by
  induction entries with
  | nil => cases h
  | cons entry rest ih =>
      obtain ⟨hfirst, hrest⟩ := List.nodup_cons.1 hkeys
      unfold findIn
      rcases List.mem_cons.1 h with rfl | h
      · exact if_pos rfl
      · have hne : entry.1 ≠ k := by
          rintro rfl
          exact hfirst (List.mem_map.2 ⟨_, h, rfl⟩)
        rw [if_neg hne]
        exact ih hrest h

/-- A replaced entry is found in place of the old one. -/
theorem findIn_replaceIn {entries : List (κ × α)} (h : (findIn k entries).isSome) :
    findIn k' (replaceIn k a entries) = if k' = k then some a else findIn k' entries := by
  induction entries with
  | nil => cases h
  | cons first rest ih =>
      obtain ⟨k₁, a₁⟩ := first
      unfold findIn at h
      unfold replaceIn
      by_cases hk : k₁ = k
      · subst hk
        simp only [if_true, findIn]
        by_cases hk' : k₁ = k'
        · simp [hk']
        · rw [if_neg hk', if_neg hk', if_neg (Ne.symm hk')]
      · rw [if_neg hk] at h ⊢
        simp only [findIn]
        by_cases hk' : k₁ = k'
        · subst hk'
          simp [hk]
        · rw [if_neg hk', if_neg hk', ih h]

/-- What is found after an insertion. -/
theorem get?_insert : (t.insert k a).get? k' = if k' = k then some a else t.get? k' := by
  unfold insert contains get?
  split
  · rename_i h
    exact findIn_replaceIn h
  · simp only [findIn]
    by_cases hk : k = k'
    · simp [hk]
    · rw [if_neg hk, if_neg (Ne.symm hk)]

/-! ### Indexes -/

variable {ι β : Type} {index : Table κ ι} {pos : ι → Nat} {key? : β → Option κ} {xs : Array β}
  {x : β} {id : ι}

/-- A table is an index of an array: it finds under a key the position of the entry that has the
key, and nothing under a key that no entry has. Entries without key are in no index. -/
def Indexes (index : Table κ ι) (pos : ι → Nat) (key? : β → Option κ) (xs : Array β) : Prop :=
  ∀ k id, index.get? k = some id ↔ xs[pos id]?.bind key? = some k

/-- Nothing is found where there is nothing. -/
theorem indexes_empty : (empty : Table κ ι).Indexes pos key? #[] := by
  intro k id
  simp [empty, get?, findIn]

/-- An entry without key leaves an index as it is. -/
theorem Indexes.push (h : index.Indexes pos key? xs) (hx : key? x = none) :
    index.Indexes pos key? (xs.push x) := by
  intro k id
  rw [h k id, Array.getElem?_push]
  split
  · rename_i hsize
    simp [hsize, hx]
  · rfl

/-- An entry with a new key is entered into an index at its position. -/
theorem Indexes.insert (h : index.Indexes pos key? xs) (hx : key? x = some k)
    (hnew : index.get? k = none) (hid : ∀ id', pos id' = xs.size ↔ id' = id) :
    (index.insert k id).Indexes pos key? (xs.push x) := by
  intro k' id'
  rw [get?_insert, Array.getElem?_push]
  split <;> split
  · rename_i hk hlast
    subst hk
    simp [hx, (hid id').1 hlast]
  · -- The key is new, so no older entry has it, and its position is the last one.
    rename_i hk hlast
    subst hk
    rw [← h k' id', hnew]
    exact ⟨fun heq => absurd ((hid id').2 (Option.some.inj heq).symm) hlast, nofun⟩
  · rename_i hk hlast
    have hold : xs[pos id']?.bind key? ≠ some k' := by simp [hlast]
    simpa [h k' id', hold, hx] using Ne.symm hk
  · exact h k' id'

/-- An entry may change as long as its key does not. -/
theorem Indexes.modify {i : Nat} {g : β → β} (h : index.Indexes pos key? xs)
    (hg : ∀ x, xs[i]? = some x → key? (g x) = key? x) :
    index.Indexes pos key? (xs.modify i g) := by
  intro k id
  rw [h k id, Array.getElem?_modify]
  split
  · rename_i hi
    cases hx : xs[pos id]? with
    | none => rfl
    | some x => simp [hg x (hi ▸ hx)]
  · rfl

end Table

end SsaCompiler
