/-
# What the tables of lowering know

A type that a program can write down is a built-in type, a structure or a pointer to such a
type. How it is spelled is settled as soon as it is there: a structure has its name before it has
its body. So the name of a callable, which tells the types of its parameters, can be read in the
same way ever after.

The tables name types and functions of the module that is being built. At any time the types are
there and can be written down, and every callable is entered together with the function that bears
its name: the function of the module with that name is the one of the entry. What is known once is
known ever after, because types keep their spelling and functions their names.
-/

import SsaCompiler.Lower.Types
import SsaCompiler.Proofs.ControlFlow.Lowering
import SsaCompiler.Proofs.Ir.Development
import SsaCompiler.Proofs.Ir.Edit
import SsaCompiler.Symbols.OperatorTable

namespace SsaCompiler

/-! ### The spelling of types -/

/-- The spelling of a type that is neither a pointer nor put together from others. -/
def IrType.atomText? : IrType → Option String
  | .void => some "void"
  | .int 1 => some "bool"
  | .int 8 => some "char"
  | .int 16 => some "short"
  | .int 32 => some "int"
  | .int 64 => some "long"
  | .float 32 => some "float"
  | .float 64 => some "double"
  | .named name _ => some name
  | _ => none

namespace TypeTable

variable {t t' : TypeTable} {id : TypeId} {ty : IrType} {text text' : String}

/-- How a type of the table that a program can write down is spelled. The last position that a
handle has room for is taken for a type that is missing. -/
inductive Spells (t : TypeTable) : TypeId → String → Prop where
  | unknown {id : TypeId} (hid : id.index = noHandle) (hty : t.Has id) : Spells t id "<unknown>"
  | atom {id : TypeId} {ty : IrType} {text : String} (hid : id.index ≠ noHandle)
      (hty : t.get id = .ok ty) (htext : ty.atomText? = some text) : Spells t id text
  | pointer {id pointee : TypeId} {text : String} (hid : id.index ≠ noHandle)
      (hty : t.get id = .ok (.pointer pointee)) (hpointee : Spells t pointee text) :
      Spells t id (text ++ "*")

/-- A type that a program can write down. -/
def IsSource (t : TypeTable) (id : TypeId) : Prop := ∃ text, t.Spells id text

/-- What is spelled is in the table. -/
theorem Spells.has (h : t.Spells id text) : t.Has id := by
  cases h with
  | unknown _ hty => exact hty
  | atom _ hty _ => exact ⟨_, hty⟩
  | pointer _ hty _ => exact ⟨_, hty⟩

/-- What can be written down is in the table. -/
theorem IsSource.has (h : t.IsSource id) : t.Has id := h.elim fun _ => Spells.has

/-- A type that is an atom can be written down. -/
theorem isSource_of_atomText? (hty : t.get id = .ok ty) (htext : ty.atomText? = some text) :
    t.IsSource id := by
  by_cases hid : id.index = noHandle
  · exact ⟨_, .unknown hid ⟨ty, hty⟩⟩
  · exact ⟨_, .atom hid hty htext⟩

theorem IsSource.pointer {pointee : TypeId} (h : t.IsSource pointee)
    (hty : t.get id = .ok (.pointer pointee)) : t.IsSource id := by
  obtain ⟨text, htext⟩ := h
  by_cases hid : id.index = noHandle
  · exact ⟨_, .unknown hid ⟨_, hty⟩⟩
  · exact ⟨_, .pointer hid hty htext⟩

/-- A structure keeps its spelling when it gets its body. -/
theorem Becomes.atomText? {ty ty' : IrType} (h : ty.Becomes ty') : ty'.atomText? = ty.atomText? := by
  rcases h with rfl | ⟨name, body, rfl, rfl⟩ <;> rfl

theorem Develops.get_named {name : String} {body : Option (List TypeId)} (ht : t.Develops t')
    (hty : t.get id = .ok (.named name body)) : ∃ body', t'.get id = .ok (.named name body') := by
  obtain ⟨ty', hty', rfl | ⟨name', body', heq, rfl⟩⟩ := ht.get_of_ok hty
  · exact ⟨body, hty'⟩
  · cases heq
    exact ⟨_, hty'⟩

theorem Spells.mono (h : t.Spells id text) (ht : t.Develops t') : t'.Spells id text := by
  induction h with
  | unknown hid hty => exact .unknown hid (ht.has hty)
  | atom hid hty htext =>
      obtain ⟨ty', hty', hbecomes⟩ := ht.get_of_ok hty
      exact .atom hid hty' ((Becomes.atomText? hbecomes).trans htext)
  | pointer hid hty _ ih => exact .pointer hid (ht.get_of_isOpaque_eq_false hty rfl) ih

/-- What can be written down can be written down later. -/
theorem IsSource.mono (h : t.IsSource id) (ht : t.Develops t') : t'.IsSource id :=
  h.imp fun _ htext => htext.mono ht

/-- A type that is an atom is described as such. -/
theorem describeWithin_atom {n : Nat} (hid : id.index ≠ noHandle) (hty : t.get id = .ok ty)
    (htext : ty.atomText? = some text) : t.describeWithin (n + 1) id = .ok text := by
  rw [describeWithin, if_neg hid, hty]
  unfold IrType.atomText? at htext
  split at htext <;> cases htext <;> rfl

/-- A description of a type that can be written down is its spelling. -/
theorem Spells.of_describeWithin {n : Nat} (h : t.Spells id text)
    (hn : t.describeWithin n id = .ok text') : t.Spells id text' := by
  induction h generalizing n text' with
  | unknown hid hty =>
      cases n with
      | zero => cases hn
      | succ n =>
          rw [describeWithin, if_pos hid] at hn
          cases hn
          exact .unknown hid hty
  | atom hid hty htext =>
      cases n with
      | zero => cases hn
      | succ n =>
          rw [describeWithin_atom hid hty htext] at hn
          cases hn
          exact .atom hid hty htext
  | pointer hid hty _ ih =>
      cases n with
      | zero => cases hn
      | succ n =>
          rw [describeWithin, if_neg hid, hty] at hn
          obtain ⟨_, hpointee, hn⟩ := answer_bind_eq_ok_iff.1 hn
          cases hpointee
          obtain ⟨inner, hinner, hn⟩ := answer_bind_eq_ok_iff.1 hn
          cases hn
          exact .pointer hid hty (ih hinner)

/-- A description of a type that can be written down is its spelling. -/
theorem IsSource.spells (h : t.IsSource id) (hdescribe : t.describe id = .ok text) :
    t.Spells id text := h.elim fun _ htext => htext.of_describeWithin hdescribe

/-! ### Parameters -/

/-- How a parameter is spelled. -/
def SpellsParam (t : TypeTable) (p : ParamSig) (text : String) : Prop :=
  ∃ base, t.Spells p.ty base ∧ text = if p.isReference then base ++ "&" else base

/-- How a list of parameters is spelled. -/
def SpellsParams (t : TypeTable) (ps : List ParamSig) (text : String) : Prop :=
  ∃ texts, List.Forall₂ t.SpellsParam ps texts ∧ text = "(" ++ ",".intercalate texts ++ ")"

/-- The spelling of a list of parameters is kept. -/
theorem SpellsParams.mono {ps : List ParamSig} (h : t.SpellsParams ps text) (ht : t.Develops t') :
    t'.SpellsParams ps text := by
  obtain ⟨texts, hall, htext⟩ := h
  refine ⟨texts, hall.imp ?_, htext⟩
  rintro p text' ⟨base, hbase, htext'⟩
  exact ⟨base, hbase.mono ht, htext'⟩

/-- Descriptions of parameters whose types can be written down are their spellings. -/
theorem spellsParam_of_describeParam {ps : List ParamSig} {texts : List String}
    (hps : ∀ p ∈ ps, t.IsSource p.ty) (h : ps.mapM t.describeParam = .ok texts) :
    List.Forall₂ t.SpellsParam ps texts := by
  induction ps generalizing texts with
  | nil =>
      cases h
      exact .nil
  | cons p ps ih =>
      rw [List.mapM_cons] at h
      obtain ⟨first, hfirst, h⟩ := answer_bind_eq_ok_iff.1 h
      obtain ⟨rest, hrest, h⟩ := answer_bind_eq_ok_iff.1 h
      cases h
      refine .cons ?_ (ih (fun q hq => hps q (List.mem_cons_of_mem _ hq)) hrest)
      obtain ⟨base, hbase, hfirst⟩ := answer_bind_eq_ok_iff.1 hfirst
      cases hfirst
      exact ⟨base, (hps p List.mem_cons_self).spells hbase, rfl⟩

/-- A description of parameters whose types can be written down is their spelling. -/
theorem spellsParams_of_describeParams {ps : List ParamSig} (hps : ∀ p ∈ ps, t.IsSource p.ty)
    (h : t.describeParams ps = .ok text) : t.SpellsParams ps text := by
  obtain ⟨texts, htexts, h⟩ := answer_bind_eq_ok_iff.1 h
  cases h
  exact ⟨texts, spellsParam_of_describeParam hps htexts, rfl⟩

end TypeTable

/-! ### Tables -/

namespace Table

variable {κ α : Type} [DecidableEq κ] {t : Table κ α} {k k' : κ} {a a' : α}

/-- What is found after a removal. -/
theorem get?_erase : (t.erase k).get? k' = if k' = k then none else t.get? k' := by
  unfold get? erase
  generalize t.entries = entries
  induction entries with
  | nil => simp [findIn]
  | cons first rest ih =>
      obtain ⟨k₁, a₁⟩ := first
      by_cases hk : k₁ = k
      · rw [List.filter_cons_of_neg (by simpa using hk), ih, findIn]
        split
        · rfl
        · rename_i hne
          rw [if_neg]
          rintro rfl
          exact hne hk
      · rw [List.filter_cons_of_pos (by simpa using hk), findIn, findIn, ih]
        by_cases hk' : k₁ = k'
        · rw [if_pos hk', if_pos hk', if_neg (hk' ▸ hk)]
        · rw [if_neg hk', if_neg hk']

/-- What is found after a removal was there. -/
theorem get?_of_get?_erase (h : (t.erase k).get? k' = some a) : t.get? k' = some a := by
  rw [get?_erase] at h
  split at h
  · cases h
  · exact h

/-- What is found after a change is the changed value or was there. -/
theorem get?_modify {f : α → α} :
    (t.modify k f).get? k' = if k' = k then (t.get? k).map f else t.get? k' := by
  unfold modify
  split
  · rename_i a ha
    rw [get?_insert, ha]
    rfl
  · rename_i hnone
    split
    · rename_i hk
      rw [hk, hnone]
      rfl
    · rfl

/-- What a table finds it finds later. -/
def Grow (t t' : Table κ α) : Prop := ∀ k a, t.get? k = some a → t'.get? k = some a

/-- A table finds what it finds. -/
theorem Grow.refl (t : Table κ α) : t.Grow t := fun _ _ h => h

theorem Grow.trans {t t' t'' : Table κ α} (h : t.Grow t') (h' : t'.Grow t'') : t.Grow t'' :=
  fun k a hk => h' k a (h k a hk)

/-- A new key leaves the others alone. -/
theorem grow_insert (h : t.get? k = none) : t.Grow (t.insert k a) := by
  intro k' a' hk'
  rw [get?_insert, if_neg, hk']
  rintro rfl
  cases h.symm.trans hk'

end Table

/-! ### Names -/

/-- Names keep their texts. -/
def Names.Grow (ns ns' : Names) : Prop := ∀ n text, ns.text n = .ok text → ns'.text n = .ok text

/-- More names leave the first ones alone. -/
theorem Names.grow_append (ns : Names) (more : Array String) : ns.Grow ⟨ns.texts ++ more⟩ := by
  intro n text h
  have hget := Checked.at_eq_ok_iff.1 h
  have hlt := (Array.getElem?_eq_some_iff.1 hget).1
  exact Checked.at_eq_ok_iff.2 ((Array.getElem?_append_left hlt).trans hget)

/-- A new name leaves the others alone. -/
theorem Names.grow_intern (ns : Names) (text : String) : ns.Grow (ns.intern text).2 := by
  intro n text' h
  unfold intern
  split
  · exact h
  · exact Checked.at_push _ h

/-- A name has the text that it was made for. -/
theorem Names.text_intern (ns : Names) (text : String) :
    (ns.intern text).2.text (ns.intern text).1 = .ok text := by
  unfold intern
  split
  · rename_i n hfind
    obtain ⟨i, hi, rfl⟩ := Option.map_eq_some_iff.1 hfind
    obtain ⟨hlt, htext, -⟩ := Array.findIdx?_eq_some_iff_getElem.1 hi
    refine Checked.at_eq_ok_iff.2 ?_
    rw [Array.getElem?_eq_getElem hlt, beq_iff_eq.1 htext]
  · exact Checked.at_push_size _ _

/-! ### Operators -/

namespace OperatorTable

variable {t t' : OperatorTable} {key own : OperatorKey} {entry : OperatorEntry} {i j : Nat}

/-- The position of a key is where the operator with that key stands. -/
def IsIndexed (t : OperatorTable) : Prop :=
  ∀ key i, t.positions.get? key = some i ↔ ∃ entry, t.entries[i]? = some (key, entry)

/-- A key has no position when no operator has it. -/
theorem IsIndexed.get?_eq_none_iff (h : t.IsIndexed) :
    t.positions.get? key = none ↔ ∀ op ∈ t.entries, op.1 ≠ key := by
  rw [Option.eq_none_iff_forall_ne_some]
  constructor
  · rintro hnone op hop rfl
    obtain ⟨i, hi⟩ := List.mem_iff_getElem?.1 hop
    exact hnone i ((h _ i).2 ⟨op.2, hi⟩)
  · intro hall i hi
    obtain ⟨entry, hentry⟩ := (h key i).1 hi
    exact hall _ (List.mem_of_getElem? hentry) rfl

theorem isIndexed_empty : empty.IsIndexed := by
  intro key i
  constructor
  · intro h
    cases h
  · rintro ⟨_, h⟩
    cases h

/-- There is one operator with a key. -/
theorem IsIndexed.eq_of_key (h : t.IsIndexed) {other : OperatorEntry}
    (hi : t.entries[i]? = some (key, entry)) (hj : t.entries[j]? = some (key, other)) : i = j :=
  Option.some.inj (((h key i).2 ⟨entry, hi⟩).symm.trans ((h key j).2 ⟨other, hj⟩))

/-- An operator is accepted when its key has no position. -/
theorem insert_eq_some_iff :
    t.insert own entry = some (i, t') ↔
      t.positions.get? own = none ∧ i = t.entries.length ∧
        t' = ⟨t.entries ++ [(own, entry)], t.positions.insert own t.entries.length⟩ := by
  unfold insert contains Table.contains
  cases t.positions.get? own with
  | none => simp [eq_comm]
  | some j => simp

/-- An operator that is accepted stands at the position that its key gets. -/
theorem IsIndexed.insert (h : t.IsIndexed) (hi : t.insert own entry = some (i, t')) :
    t'.IsIndexed := by
  obtain ⟨hfree, -, rfl⟩ := insert_eq_some_iff.1 hi
  intro key j
  rw [Table.get?_insert]
  split
  next hkey =>
    -- No operator had the key before, so what has it now is the one that is added.
    subst hkey
    have hother : ∀ entry', t.entries[j]? ≠ some (key, entry') := fun entry' hj =>
      h.get?_eq_none_iff.1 hfree _ (List.mem_of_getElem? hj) rfl
    rw [Option.some.injEq]
    constructor
    · rintro rfl
      exact ⟨entry, List.getElem?_concat_length⟩
    · rintro ⟨entry', hget⟩
      rcases Nat.lt_trichotomy j t.entries.length with hlt | rfl | hgt
      · exact absurd (List.getElem?_append_left hlt ▸ hget) (hother entry')
      · rfl
      · rw [List.getElem?_eq_none (by simpa using Nat.succ_le_of_lt hgt)] at hget
        cases hget
  next hkey =>
    rw [h key j]
    refine exists_congr fun entry' => ⟨fun hj => ?_, fun hj => ?_⟩
    · exact List.getElem?_append_left (List.getElem?_eq_some_iff.1 hj).1 ▸ hj
    · rw [List.getElem?_append] at hj
      split at hj
      · exact hj
      · exact absurd (congrArg Prod.fst (List.mem_singleton.1 (List.mem_of_getElem? hj))) hkey

/-- An operator keeps its key when something else about it changes. -/
theorem IsIndexed.modify (h : t.IsIndexed) (index : Nat) (f : OperatorEntry → OperatorEntry) :
    (t.modify index f).IsIndexed := by
  intro key i
  refine (h key i).trans ?_
  rw [OperatorTable.modify, List.getElem?_modify]
  cases t.entries[i]? with
  | none => simp
  | some op =>
      obtain ⟨own, entry⟩ := op
      by_cases hi : index = i <;> simp [hi, eq_comm]

end OperatorTable

/-! ### Callables -/

/-- What the name of a function in the module tells about it. -/
inductive Callable where
  /-- A function that is known by its name alone. -/
  | plain (name : String)
  | function (name : String) (params : List ParamSig)
  | method (owner : TypeId) (name : String) (params : List ParamSig)
  | constructor (owner : TypeId) (params : List ParamSig)
  | operator (text : String) (params : List ParamSig)
  deriving DecidableEq, Repr

/-- What the name of a function tells. The entry point is known by its name alone when it takes no
parameters. -/
def Callable.ofFunction (entryPoint text : String) (params : List ParamSig) : Callable :=
  if text = entryPoint ∧ params = [] then .plain text else .function text params

/-- The name in the module of a callable, by the spelling of its types. -/
inductive Callable.Symbol (t : TypeTable) : Callable → String → Prop where
  | plain (name : String) : Symbol t (.plain name) name
  | function {name text : String} {params : List ParamSig} (hparams : t.SpellsParams params text) :
      Symbol t (.function name params) (name ++ text)
  | method {owner : TypeId} {ownerText name text : String} {params : List ParamSig}
      (howner : t.Spells owner ownerText) (hparams : t.SpellsParams params text) :
      Symbol t (.method owner name params) (ownerText ++ "." ++ name ++ text)
  | constructor {owner : TypeId} {ownerText text : String} {params : List ParamSig}
      (howner : t.Spells owner ownerText) (hparams : t.SpellsParams params text) :
      Symbol t (.constructor owner params) (ownerText ++ ".new" ++ text)
  | operator {op text : String} {params : List ParamSig} (hparams : t.SpellsParams params text) :
      Symbol t (.operator op params) ("operator" ++ op ++ text)

/-- The name in the module of a callable is kept. -/
theorem Callable.Symbol.mono {t t' : TypeTable} {k : Callable} {symbol : String}
    (h : k.Symbol t symbol) (ht : t.Develops t') : k.Symbol t' symbol := by
  cases h with
  | plain => exact .plain _
  | function hparams => exact .function (hparams.mono ht)
  | method howner hparams => exact .method (howner.mono ht) (hparams.mono ht)
  | constructor howner hparams => exact .constructor (howner.mono ht) (hparams.mono ht)
  | operator hparams => exact .operator (hparams.mono ht)

/-- A function of the module bears the name of a callable. -/
def Module.Implements (m : Module) (k : Callable) (f : FunctionId) : Prop :=
  ∃ symbol, k.Symbol m.types symbol ∧ m.functionByName? symbol = some f

theorem Module.Implements.mono {m m' : Module} {k : Callable} {f : FunctionId}
    (h : m.Implements k f) (hm : m.Evolves m') : m'.Implements k f := by
  obtain ⟨symbol, hsymbol, hf⟩ := h
  exact ⟨symbol, hsymbol.mono hm.types, hm.functionByName? hf⟩

/-! ### Entries -/

/-- Overloads that are told apart by their parameters and have something in common. -/
structure OverloadSet.Holds (set : OverloadSet) (P : Overload → Prop) : Prop where
  apart : set.overloads.Pairwise fun a b => a.params ≠ b.params
  each : ∀ o ∈ set.overloads, P o

/-- The empty set has whatever in common. -/
theorem OverloadSet.holds_empty (P : Overload → Prop) : OverloadSet.empty.Holds P :=
  ⟨.nil, fun _ ho => absurd ho List.not_mem_nil⟩

/-- Overloads have in common what follows. -/
theorem OverloadSet.Holds.imp {set : OverloadSet} {P Q : Overload → Prop} (h : set.Holds P)
    (hPQ : ∀ o, P o → Q o) : set.Holds Q :=
  ⟨h.apart, fun o ho => hPQ o (h.each o ho)⟩

section

variable (names : Names) (m : Module)

/-- A function is entered under its name. -/
def Overload.IsFunction (entryPoint : String) (name : Name) (o : Overload) : Prop :=
  ∃ text, names.text name = .ok text ∧
    m.Implements (.ofFunction entryPoint text o.params) o.function

/-- A method is entered under its name. -/
def Overload.IsMethod (owner : TypeId) (name : Name) (o : Overload) : Prop :=
  ∃ text, names.text name = .ok text ∧ m.Implements (.method owner text o.params) o.function

/-- A constructor is entered with its function. -/
def Overload.IsConstructor (owner : TypeId) (o : Overload) : Prop :=
  m.Implements (.constructor owner o.params) o.function

/-- What is known about an object with a name. Its methods and constructors are those of a type
that leads to the name. -/
structure ObjectInfo.Known (byType : Table TypeId Name) (name : Name) (info : ObjectInfo) :
    Prop where
  ty : m.types.IsSource info.ty
  methods : ∀ {method set}, info.methods.get? method = some set →
    set.Holds fun o => ∃ owner, byType.get? owner = some name ∧ o.IsMethod names m owner method
  constructors : info.constructors.Holds fun o =>
    ∃ owner, byType.get? owner = some name ∧ o.IsConstructor m owner

/-- An operator is entered under a key that tells its operands. Of a cast the key tells the result
as well. -/
structure OperatorEntry.Known (key : OperatorKey) (e : OperatorEntry) : Prop where
  operands : ∃ lhs rhs : Option ParamSig, e.params = lhs.toList ++ rhs.toList ∧
    Lower.operatorKey? key.symbol (lhs.map (·.ty)) (rhs.map (·.ty)) e.ret = some key
  function : m.Implements (.operator key.symbol.text e.params) e.function

/-- What the tables know about a module. -/
structure Context.Known (c : Context) : Prop where
  objects : ∀ {name info}, c.symbols.objects.get? name = some info →
    info.Known names m c.symbols.byType name
  structures : ∀ {ty name}, c.symbols.byType.get? ty = some name →
    ∃ text body, names.text name = .ok text ∧ m.types.get ty = .ok (.named text body)
  instances : ∀ {key ty}, c.templates.instances.get? key = some ty → m.types.IsSource ty
  functions : ∀ {name set}, c.symbols.functions.get? name = some set →
    set.Holds (Overload.IsFunction names m c.options.entryPoint name)
  operators : ∀ entry ∈ c.operators.entries, entry.2.Known m entry.1
  keys : c.operators.IsIndexed
  support : ∀ {f id}, c.support.declared.get? f = some id → m.Implements (.plain f.symbol) id
  supported : c.support.declared.keys.Nodup

end

section

variable {names names' : Names} {m m' : Module}

/-- What is known about an object is known later. -/
theorem ObjectInfo.Known.mono {byType byType' : Table TypeId Name} {name : Name} {info : ObjectInfo}
    (h : info.Known names m byType name) (hbyType : byType.Grow byType')
    (hnames : names.Grow names') (hm : m.Evolves m') : info.Known names' m' byType' name where
  ty := h.ty.mono hm.types
  methods hset := (h.methods hset).imp fun _ ho => by
    obtain ⟨owner, howner, text, htext, himpl⟩ := ho
    exact ⟨owner, hbyType _ _ howner, text, hnames _ _ htext, himpl.mono hm⟩
  constructors := h.constructors.imp fun _ ho => by
    obtain ⟨owner, howner, himpl⟩ := ho
    exact ⟨owner, hbyType _ _ howner, himpl.mono hm⟩

/-- What the tables know they know later. -/
theorem Context.Known.mono {c : Context} (h : c.Known names m) (hnames : names.Grow names')
    (hm : m.Evolves m') : c.Known names' m' where
  objects hinfo := (h.objects hinfo).mono (.refl _) hnames hm
  structures hname := by
    obtain ⟨text, body, htext, hty⟩ := h.structures hname
    obtain ⟨body', hty'⟩ := hm.types.get_named hty
    exact ⟨text, body', hnames _ _ htext, hty'⟩
  instances hty := (h.instances hty).mono hm.types
  functions hset := (h.functions hset).imp fun _ ho => by
    obtain ⟨text, htext, himpl⟩ := ho
    exact ⟨text, hnames _ _ htext, himpl.mono hm⟩
  operators entry hentry :=
    ⟨(h.operators entry hentry).operands, (h.operators entry hentry).function.mono hm⟩
  keys := h.keys
  support hid := (h.support hid).mono hm
  supported := h.supported

end

/-! ### States of lowering -/

namespace Lowering

/-- What the tables know at some time. -/
def Known (s : Lowering) : Prop := s.context.Known s.names s.module

/-- A state of lowering and a later one. The module evolves and requests lead on, names and options
are kept, and the tables know what they enter. -/
structure Evolves (s s' : Lowering) : Prop where
  module : s.module.Evolves s'.module
  continues : s.module.Continues s'.module
  names : s.names.Grow s'.names
  byType : s.context.symbols.byType.Grow s'.context.symbols.byType
  options : s'.context.options = s.context.options
  known : s.Known → s'.Known

theorem Evolves.refl (s : Lowering) : s.Evolves s :=
  ⟨.refl _, .refl, fun _ _ h => h, .refl _, rfl, id⟩

theorem Evolves.trans {s s' s'' : Lowering} (h : s.Evolves s') (h' : s'.Evolves s'') :
    s.Evolves s'' :=
  ⟨h.module.trans h'.module, h.continues.trans h'.continues,
    fun _ _ ht => h'.names _ _ (h.names _ _ ht), h.byType.trans h'.byType,
    h'.options.trans h.options, h'.known ∘ h.known⟩

instance : Timeline Lowering := ⟨Known, Evolves, .refl, .trans, Evolves.known⟩

theorem evolves_module {s : Lowering} {m : Module} (h : s.module.Progresses m) :
    s.Evolves { s with module := m } :=
  ⟨h.evolves, h.continues, fun _ _ ht => ht, .refl _, rfl,
    fun hs => hs.mono (fun _ _ ht => ht) h.evolves⟩

theorem evolves_names {s : Lowering} {names : Names} (h : s.names.Grow names) :
    s.Evolves { s with names := names } :=
  ⟨.refl _, .refl, h, .refl _, rfl, fun hs => hs.mono h (.refl _)⟩

/-- A change of the tables that keeps what they know. -/
theorem evolves_context {s : Lowering} {c : Context} (hoptions : c.options = s.context.options)
    (hbyType : s.context.symbols.byType.Grow c.symbols.byType)
    (hknown : s.Known → c.Known s.names s.module) : s.Evolves { s with context := c } :=
  ⟨.refl _, .refl, fun _ _ ht => ht, hbyType, hoptions, hknown⟩

end Lowering

/-- Tables that differ only in what nothing is known about. -/
structure Context.SameEntries (c c' : Context) : Prop where
  options : c'.options = c.options
  objects : c'.symbols.objects = c.symbols.objects
  byType : c'.symbols.byType = c.symbols.byType
  instances : c'.templates.instances = c.templates.instances
  functions : c'.symbols.functions = c.symbols.functions
  operators : c'.operators = c.operators
  support : c'.support = c.support

theorem Context.SameEntries.known {c c' : Context} {names : Names} {m : Module}
    (h : c.SameEntries c') (hc : c.Known names m) : c'.Known names m where
  objects hinfo := h.byType ▸ hc.objects (h.objects ▸ hinfo)
  structures hname := hc.structures (h.byType ▸ hname)
  instances hty := hc.instances (h.instances ▸ hty)
  functions hset := h.options ▸ hc.functions (h.functions ▸ hset)
  operators entry hentry := hc.operators entry (h.operators ▸ hentry)
  keys := h.operators ▸ hc.keys
  support hid := hc.support (h.support ▸ hid)
  supported := h.support ▸ hc.supported

end SsaCompiler
