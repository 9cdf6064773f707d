/-
# The names of callables tell them apart

The name of a callable in the module is put together from names of the program and from the
spelling of types. When the structures of the module have names of their own, which look like
identifiers or like instances of templates, a name can be taken apart again: it tells whether it
is that of a function, of a method, of a constructor or of an operator, and the types of the
parameters.

The name of an operator does not tell its result. So a cast to one type and a cast to another
type share a function, and no other callables do.
-/

import SsaCompiler.Proofs.Lower.Compilation

namespace SsaCompiler

/-! ### Texts -/

/-- A text in which all brackets are closed, and in which commas stand inside brackets only. -/
structure IsBalanced (x : List Char) : Prop where
  count : x.count '<' = x.count '>'
  comma : ∀ {before after}, x = before ++ ',' :: after → before.count '>' < before.count '<'

namespace IsBalanced

variable {x y a b : List Char}

theorem of_notMem (hcount : x.count '<' = x.count '>') (hcomma : ',' ∉ x) : IsBalanced x where
  count := hcount
  comma := by
    rintro before after rfl
    exact (hcomma (List.mem_append_right _ List.mem_cons_self)).elim

/-- A further character behind the text. -/
theorem concat {c : Char} (h : IsBalanced x) (hopen : c ≠ '<') (hclose : c ≠ '>')
    (hcomma : c ≠ ',') : IsBalanced (x ++ [c]) where
  count := by
    rw [List.count_append, List.count_append, h.count, List.count_singleton, List.count_singleton,
      if_neg (by simpa using hopen), if_neg (by simpa using hclose)]
  comma := by
    intro before after heq
    rcases List.append_eq_append_iff.1 heq with ⟨rest, rfl, hrest⟩ | ⟨rest, rfl, hrest⟩
    · cases rest with
      | nil =>
          cases hrest
          exact (hcomma rfl).elim
      | cons c' rest => cases rest <;> cases hrest
    · cases rest with
      | nil =>
          cases hrest
          exact (hcomma rfl).elim
      | cons c' rest =>
          obtain ⟨rfl, rfl⟩ := List.cons.inj hrest
          exact h.comma rfl

/-- No text goes on with a comma where another one ends. -/
theorem not_append_comma (ha : IsBalanced a) (hb : IsBalanced b) : b ≠ a ++ ',' :: x := by
  intro heq
  have hlt := hb.comma heq
  rw [ha.count] at hlt
  exact Nat.lt_irrefl _ hlt

/-- The first of two texts ends at the first comma that stands outside of brackets. -/
theorem append_comma_inj (ha : IsBalanced a) (hb : IsBalanced b)
    (h : a ++ ',' :: x = b ++ ',' :: y) : a = b ∧ x = y := by
  rcases List.append_eq_append_iff.1 h with ⟨rest, rfl, hrest⟩ | ⟨rest, rfl, hrest⟩
  · cases rest with
    | nil => exact ⟨(List.append_nil a).symm, (List.cons.inj hrest).2⟩
    | cons c rest =>
        obtain ⟨rfl, -⟩ := List.cons.inj hrest
        exact (not_append_comma ha hb rfl).elim
  · cases rest with
    | nil => exact ⟨List.append_nil b, (List.cons.inj hrest).2.symm⟩
    | cons c rest =>
        obtain ⟨rfl, -⟩ := List.cons.inj hrest
        exact (not_append_comma hb ha rfl).elim

/-- Texts that are joined by commas can be told apart. -/
theorem intercalate_inj {xs ys : List (List Char)} (hxs : ∀ x ∈ xs, IsBalanced x ∧ x ≠ [])
    (hys : ∀ y ∈ ys, IsBalanced y ∧ y ≠ [])
    (h : [','].intercalate xs = [','].intercalate ys) : xs = ys := by
  induction xs generalizing ys with
  | nil =>
      cases ys with
      | nil => rfl
      | cons y ys =>
          have hy := (hys y List.mem_cons_self).2
          cases ys <;> simp_all
  | cons x xs ih =>
      obtain ⟨hx, hxne⟩ := hxs x List.mem_cons_self
      have hrest : ∀ x ∈ xs, IsBalanced x ∧ x ≠ [] := fun z hz => hxs z (List.mem_cons_of_mem _ hz)
      cases ys with
      | nil => cases xs <;> simp_all
      | cons y ys =>
          obtain ⟨hy, -⟩ := hys y List.mem_cons_self
          have hrest' : ∀ y ∈ ys, IsBalanced y ∧ y ≠ [] :=
            fun z hz => hys z (List.mem_cons_of_mem _ hz)
          cases xs with
          | nil =>
              cases ys with
              | nil => simpa using h
              | cons y' ys =>
                  rw [List.intercalate_singleton, List.intercalate_cons_cons, List.append_assoc] at h
                  exact (not_append_comma hy hx h).elim
          | cons x' xs =>
              cases ys with
              | nil =>
                  rw [List.intercalate_singleton, List.intercalate_cons_cons, List.append_assoc] at h
                  exact (not_append_comma hx hy h.symm).elim
              | cons y' ys =>
                  rw [List.intercalate_cons_cons, List.intercalate_cons_cons, List.append_assoc,
                    List.append_assoc] at h
                  obtain ⟨rfl, htail⟩ := append_comma_inj hx hy h
                  rw [ih hrest hrest' htail]

/-- What is in none of the texts is in no join of them, unless it is a comma. -/
theorem notMem_intercalate {c : Char} {xs : List (List Char)} (hcomma : c ≠ ',')
    (hxs : ∀ x ∈ xs, c ∉ x) : c ∉ [','].intercalate xs := by
  induction xs with
  | nil => exact List.not_mem_nil
  | cons x xs ih =>
      have hx := hxs x List.mem_cons_self
      have hrest := ih fun y hy => hxs y (List.mem_cons_of_mem _ hy)
      cases xs with
      | nil => simpa using hx
      | cons y ys =>
          rw [List.intercalate_cons_cons, List.mem_append, List.mem_append, List.mem_singleton]
          rintro ((hmem | heq) | hmem)
          · exact hx hmem
          · exact hcomma heq
          · exact hrest hmem

end IsBalanced

/-! ### Types -/

/-- The spellings of built-in types, and of the type that is missing. -/
def IrType.keywords : List String :=
  ["<unknown>", "void", "bool", "char", "short", "int", "long", "float", "double"]

/-- The built-in type with a spelling. -/
def IrType.ofKeyword? : String → Option IrType
  | "void" => some .void
  | "bool" => some (.int 1)
  | "char" => some (.int 8)
  | "short" => some (.int 16)
  | "int" => some (.int 32)
  | "long" => some (.int 64)
  | "float" => some (.float 32)
  | "double" => some (.float 64)
  | _ => none

/-- The spelling of a type as a part of a name. -/
structure IsTypeText (text : String) : Prop where
  balanced : IsBalanced text.toList
  ne : text.toList ≠ []
  paren : '(' ∉ text.toList
  dot : '.' ∉ text.toList
  reference : text.toList.getLast? ≠ some '&'

/-- A name of a structure that looks like an identifier or like an instance of a template. -/
structure IsStructName (name : String) : Prop extends IsTypeText name where
  pointer : name.toList.getLast? ≠ some '*'
  keyword : name ∉ IrType.keywords

/-- The structures have names of their own. -/
structure TypeTable.IsLegible (t : TypeTable) : Prop where
  name : ∀ {id name body}, t.get id = .ok (.named name body) → IsStructName name
  unique : ∀ {i j name body body'}, t.get i = .ok (.named name body) →
    t.get j = .ok (.named name body') → i = j

/-- The spellings of built-in types are spellings, and no pointer is among them. -/
theorem isTypeText_of_mem_keywords {text : String} (h : text ∈ IrType.keywords) :
    IsTypeText text ∧ text.toList.getLast? ≠ some '*' := by
  have hall : ∀ text ∈ IrType.keywords, text.toList.count '<' = text.toList.count '>' ∧
      ',' ∉ text.toList ∧ text.toList ≠ [] ∧ '(' ∉ text.toList ∧ '.' ∉ text.toList ∧
      text.toList.getLast? ≠ some '&' ∧ text.toList.getLast? ≠ some '*' := by decide
  obtain ⟨hcount, hcomma, hne, hparen, hdot, hreference, hpointer⟩ := hall text h
  exact ⟨⟨.of_notMem hcount hcomma, hne, hparen, hdot, hreference⟩, hpointer⟩

/-- An atom is a structure under its name or a built-in type, which is told by its spelling. -/
theorem IrType.atomText?_cases {ty : IrType} {text : String} (h : ty.atomText? = some text) :
    (∃ body, ty = .named text body) ∨
      ty.structName? = none ∧ text ∈ keywords ∧ ofKeyword? text = some ty := by
  unfold atomText? at h
  split at h
  all_goals cases h
  case h_9 name body => exact .inl ⟨body, rfl⟩
  all_goals exact .inr ⟨rfl, by decide, rfl⟩

namespace TypeTable

variable {t : TypeTable} {id id' : TypeId} {text : String}

/-- The spelling of a type is a spelling, and that of an atom does not look like a pointer. -/
theorem IsLegible.isTypeText (ht : t.IsLegible) (h : t.Spells id text) : IsTypeText text := by
  induction h with
  | unknown _ _ => exact (isTypeText_of_mem_keywords (by decide)).1
  | atom _ hty htext =>
      rcases IrType.atomText?_cases htext with ⟨body, rfl⟩ | ⟨-, hmem, -⟩
      · exact (ht.name hty).toIsTypeText
      · exact (isTypeText_of_mem_keywords hmem).1
  | pointer _ _ _ ih =>
      refine ⟨?_, ?_, ?_, ?_, ?_⟩
      all_goals rw [String.toList_append]
      · exact ih.balanced.concat (by decide) (by decide) (by decide)
      · simp
      · simpa using ih.paren
      · simpa using ih.dot
      · simp

/-- An atom is spelled neither like a pointer nor like the type that is missing. -/
theorem IsLegible.atomText_ne (ht : t.IsLegible) {ty : IrType} (hty : t.get id = .ok ty)
    (htext : ty.atomText? = some text) :
    text.toList.getLast? ≠ some '*' ∧ text ≠ "<unknown>" := by
  rcases IrType.atomText?_cases htext with ⟨body, rfl⟩ | ⟨-, hmem, hkeyword⟩
  · refine ⟨(ht.name hty).pointer, ?_⟩
    rintro rfl
    exact (ht.name hty).keyword (by decide)
  · refine ⟨(isTypeText_of_mem_keywords hmem).2, ?_⟩
    rintro rfl
    cases hkeyword

/-- There is one atom with a spelling. -/
theorem IsLegible.eq_of_atomText (ht : t.IsLegible) (hunique : t.IsUnique) {ty ty' : IrType}
    (hty : t.get id = .ok ty) (htext : ty.atomText? = some text) (hty' : t.get id' = .ok ty')
    (htext' : ty'.atomText? = some text) : id = id' := by
  rcases IrType.atomText?_cases htext with ⟨body, rfl⟩ | ⟨hname, hmem, hkeyword⟩
  · rcases IrType.atomText?_cases htext' with ⟨body', rfl⟩ | ⟨-, hmem', -⟩
    · exact ht.unique hty hty'
    · exact ((ht.name hty).keyword hmem').elim
  · rcases IrType.atomText?_cases htext' with ⟨body', rfl⟩ | ⟨-, -, hkeyword'⟩
    · exact ((ht.name hty').keyword hmem).elim
    · cases hkeyword.symm.trans hkeyword'
      exact hunique id id' ty hty hty' hname

/-- A type is told by its spelling. -/
theorem IsLegible.eq_of_spells (ht : t.IsLegible) (hunique : t.IsUnique) {text' : String}
    (h : t.Spells id text) (h' : t.Spells id' text') (heq : text = text') : id = id' := by
  have hpointer (inner : String) : (inner ++ "*").toList.getLast? = some '*' := by simp
  induction h generalizing id' text' with
  | unknown hid _ =>
      cases h' with
      | unknown hid' _ =>
          cases id
          cases id'
          exact congrArg TypeId.mk (hid.trans hid'.symm)
      | atom _ hty htext => exact ((ht.atomText_ne hty htext).2 heq.symm).elim
      | @pointer _ _ inner _ _ _ =>
          have hlast := hpointer inner
          rw [← heq] at hlast
          cases hlast
  | atom _ hty htext =>
      subst heq
      cases h' with
      | unknown _ _ => exact ((ht.atomText_ne hty htext).2 rfl).elim
      | atom _ hty' htext' => exact ht.eq_of_atomText hunique hty htext hty' htext'
      | pointer _ _ _ => exact ((ht.atomText_ne hty htext).1 (hpointer _)).elim
  | @pointer _ _ inner _ hty _ ih =>
      cases h' with
      | unknown _ _ =>
          have hlast := hpointer inner
          rw [heq] at hlast
          cases hlast
      | atom _ hty' htext' =>
          subst heq
          exact ((ht.atomText_ne hty' htext').1 (hpointer _)).elim
      | pointer _ hty' hpointee' =>
          cases ih hpointee' ((String.append_left_inj _).1 heq)
          exact hunique _ _ _ hty hty' rfl

/-- A type has one spelling. -/
theorem Spells.unique {text' : String} (h : t.Spells id text) (h' : t.Spells id text') :
    text = text' := by
  induction h generalizing text' with
  | unknown hid _ =>
      cases h' with
      | unknown _ _ => rfl
      | atom hid' _ _ => exact (hid' hid).elim
      | pointer hid' _ _ => exact (hid' hid).elim
  | atom hid hty htext =>
      cases h' with
      | unknown hid' _ => exact (hid hid').elim
      | atom _ hty' htext' =>
          cases hty.symm.trans hty'
          exact Option.some.inj (htext.symm.trans htext')
      | pointer _ hty' _ =>
          cases hty.symm.trans hty'
          cases htext
  | pointer hid hty _ ih =>
      cases h' with
      | unknown hid' _ => exact (hid hid').elim
      | atom _ hty' htext' =>
          cases hty.symm.trans hty'
          cases htext'
      | pointer _ hty' hpointee' =>
          cases hty.symm.trans hty'
          rw [ih hpointee']

/-! ### Parameters -/

variable {p q : ParamSig} {ps qs : List ParamSig}

/-- The spelling of a parameter is a part of a list. -/
theorem IsLegible.isBalanced_param (ht : t.IsLegible) (h : t.SpellsParam p text) :
    IsBalanced text.toList ∧ text.toList ≠ [] ∧ '(' ∉ text.toList := by
  obtain ⟨base, hbase, rfl⟩ := h
  have hbase := ht.isTypeText hbase
  split
  · rw [String.toList_append]
    refine ⟨hbase.balanced.concat (by decide) (by decide) (by decide), by simp, ?_⟩
    simpa using hbase.paren
  · exact ⟨hbase.balanced, hbase.ne, hbase.paren⟩

/-- A parameter is told by its spelling. -/
theorem IsLegible.eq_of_spellsParam (ht : t.IsLegible) (hunique : t.IsUnique)
    (h : t.SpellsParam p text) (h' : t.SpellsParam q text) : p = q := by
  obtain ⟨base, hbase, rfl⟩ := h
  obtain ⟨base', hbase', heq⟩ := h'
  have hlast (inner : String) : (inner ++ "&").toList.getLast? = some '&' := by simp
  obtain ⟨ty, isReference⟩ := p
  obtain ⟨ty', isReference'⟩ := q
  cases isReference <;> cases isReference'
  · cases ht.eq_of_spells hunique hbase hbase' heq
    rfl
  · exact ((ht.isTypeText hbase).reference (by rw [show base = base' ++ "&" from heq, hlast])).elim
  · exact ((ht.isTypeText hbase').reference
      (by rw [show base' = base ++ "&" from heq.symm, hlast])).elim
  · cases ht.eq_of_spells hunique hbase hbase' ((String.append_left_inj _).1 heq)
    rfl

/-- A parameter has one spelling. -/
theorem SpellsParam.unique {text' : String} (h : t.SpellsParam p text) (h' : t.SpellsParam p text') :
    text = text' := by
  obtain ⟨base, hbase, rfl⟩ := h
  obtain ⟨base', hbase', rfl⟩ := h'
  rw [hbase.unique hbase']

theorem IsLegible.isBalanced_params {texts : List String} (ht : t.IsLegible)
    (hall : List.Forall₂ t.SpellsParam ps texts) :
    ∀ text ∈ texts, IsBalanced text.toList ∧ text.toList ≠ [] ∧ '(' ∉ text.toList := by
  induction hall with
  | nil => exact fun _ htext => absurd htext List.not_mem_nil
  | cons hp _ ih =>
      intro text htext
      rcases List.mem_cons.1 htext with rfl | htext
      · exact ht.isBalanced_param hp
      · exact ih text htext

/-- Parameters are told by their spelling. -/
theorem IsLegible.eq_of_spellsParams (ht : t.IsLegible) (hunique : t.IsUnique)
    (h : t.SpellsParams ps text) (h' : t.SpellsParams qs text) : ps = qs := by
  obtain ⟨texts, hall, rfl⟩ := h
  obtain ⟨texts', hall', heq⟩ := h'
  have hparts {ps : List ParamSig} {texts : List String}
      (hall : List.Forall₂ t.SpellsParam ps texts) :
      ∀ x ∈ texts.map String.toList, IsBalanced x ∧ x ≠ [] := by
    intro x hx
    obtain ⟨text, htext, rfl⟩ := List.mem_map.1 hx
    obtain ⟨hbalanced, hne, -⟩ := ht.isBalanced_params hall text htext
    exact ⟨hbalanced, hne⟩
  have hjoined : [','].intercalate (texts.map String.toList) =
      [','].intercalate (texts'.map String.toList) := by
    have hinner := (String.append_right_inj _).1 ((String.append_left_inj _).1 heq)
    simpa using congrArg String.toList hinner
  have htexts := IsBalanced.intercalate_inj (hparts hall) (hparts hall') hjoined
  have htoList : Function.Injective String.toList := fun _ _ => String.toList_injective
  obtain rfl := List.map_injective_iff.2 htoList htexts
  have hleft : Relator.LeftUnique t.SpellsParam := fun _ _ _ => ht.eq_of_spellsParam hunique
  exact List.left_unique_forall₂' hleft hall hall'

theorem SpellsParams.unique {text' : String} (h : t.SpellsParams ps text)
    (h' : t.SpellsParams ps text') : text = text' := by
  obtain ⟨texts, hall, rfl⟩ := h
  obtain ⟨texts', hall', rfl⟩ := h'
  have hright : Relator.RightUnique t.SpellsParam := fun _ _ _ => SpellsParam.unique
  rw [List.right_unique_forall₂' hright hall hall']

/-- The parameters in the name of a callable stand behind the only bracket of this kind. -/
theorem IsLegible.paren_of_spellsParams (ht : t.IsLegible) (h : t.SpellsParams ps text) :
    ∃ rest, text.toList = '(' :: rest ∧ '(' ∉ rest := by
  obtain ⟨texts, hall, rfl⟩ := h
  refine ⟨(",".intercalate texts ++ ")").toList, by simp [String.append_assoc], ?_⟩
  rw [String.toList_append, String.toList_intercalate]
  intro hmem
  rcases List.mem_append.1 hmem with hmem | hmem
  · refine IsBalanced.notMem_intercalate (by decide) (fun x hx => ?_) hmem
    obtain ⟨text, htext, rfl⟩ := List.mem_map.1 hx
    exact (ht.isBalanced_params hall text htext).2.2
  · revert hmem
    decide

end TypeTable

/-! ### Callables -/

namespace Callable

variable {t : TypeTable} {k k' : Callable} {params params' : List ParamSig} {base text : String}

/-- What a program may choose for the name of a callable. A function is not called like an
operator and a method not like a constructor. -/
def IsLegible : Callable → Prop
  | plain name => '(' ∉ name.toList
  | function name _ => '(' ∉ name.toList ∧ '.' ∉ name.toList ∧
      ∀ op : OpSymbol, name ≠ "operator" ++ op.text
  | method _ name _ => '(' ∉ name.toList ∧ '.' ∉ name.toList ∧ name ≠ "new"
  | constructor _ _ => True
  | operator text _ => ∃ op : OpSymbol, text = op.text

/-- The name of a callable in front of the parameters. -/
inductive Base (t : TypeTable) : Callable → List ParamSig → String → Prop where
  | function (name : String) (params : List ParamSig) : Base t (.function name params) params name
  | method {owner : TypeId} {ownerText : String} (name : String) (params : List ParamSig)
      (howner : t.Spells owner ownerText) :
      Base t (.method owner name params) params (ownerText ++ "." ++ name)
  | constructor {owner : TypeId} {ownerText : String} (params : List ParamSig)
      (howner : t.Spells owner ownerText) :
      Base t (.constructor owner params) params (ownerText ++ ".new")
  | operator (op : String) (params : List ParamSig) :
      Base t (.operator op params) params ("operator" ++ op)

/-- A callable has only its name, or the parameters follow. -/
theorem Symbol.cases (h : k.Symbol t text) : k = .plain text ∨
    ∃ params base list, k.Base t params base ∧ t.SpellsParams params list ∧ text = base ++ list := by
  cases h with
  | plain => exact .inl rfl
  | function hparams => exact .inr ⟨_, _, _, .function _ _, hparams, rfl⟩
  | method howner hparams => exact .inr ⟨_, _, _, .method _ _ howner, hparams, rfl⟩
  | constructor howner hparams => exact .inr ⟨_, _, _, .constructor _ howner, hparams, rfl⟩
  | operator hparams => exact .inr ⟨_, _, _, .operator _ _, hparams, rfl⟩

/-- A callable has one base. -/
theorem Base.unique {base' : String} (h : k.Base t params base) (h' : k.Base t params' base') :
    params = params' ∧ base = base' := by
  cases h with
  | function => cases h'; exact ⟨rfl, rfl⟩
  | method _ _ howner =>
      cases h' with
      | method _ _ howner' => exact ⟨rfl, by rw [howner.unique howner']⟩
  | constructor _ howner =>
      cases h' with
      | constructor _ howner' => exact ⟨rfl, by rw [howner.unique howner']⟩
  | operator => cases h'; exact ⟨rfl, rfl⟩

/-- The name of an operator has no bracket, and no point or the two points of a range. -/
theorem count_operator (op : OpSymbol) : ("operator" ++ op.text).toList.count '.' ≠ 1 ∧
    '(' ∉ ("operator" ++ op.text).toList := by
  cases op with
  | binary op => cases op <;> decide
  | unary op => cases op <;> decide
  | index => decide
  | cast => decide
  | delete => decide

/-- A base has an owner in front of its only point, or it is the name of a function or an
operator. -/
theorem Base.cases (ht : t.IsLegible) (h : k.Base t params base) (hk : k.IsLegible) :
    base.toList.count '.' ≠ 1 ∧
      (k = .function base params ∧ (∀ op : OpSymbol, base ≠ "operator" ++ op.text) ∨
        ∃ op : OpSymbol, k = .operator op.text params ∧ base = "operator" ++ op.text) ∨
    ∃ owner ownerText name, t.Spells owner ownerText ∧ base = ownerText ++ "." ++ name ∧
      '.' ∉ ownerText.toList ∧ '.' ∉ name.toList ∧
      k = if name = "new" then .constructor owner params else .method owner name params := by
  cases h with
  | function =>
      refine .inl ⟨?_, .inl ⟨rfl, hk.2.2⟩⟩
      rw [List.count_eq_zero.2 hk.2.1]
      decide
  | method name _ howner =>
      exact .inr ⟨_, _, _, howner, rfl, (ht.isTypeText howner).dot, hk.2.1, (if_neg hk.2.2).symm⟩
  | constructor _ howner =>
      refine .inr ⟨_, _, "new", howner, ?_, (ht.isTypeText howner).dot, by decide, rfl⟩
      rw [String.append_assoc]
      rfl
  | operator op =>
      obtain ⟨op, rfl⟩ := hk
      exact .inl ⟨(count_operator op).1, .inr ⟨op, rfl, rfl⟩⟩

/-- There is no bracket in front of the parameters. -/
theorem Base.paren (ht : t.IsLegible) (h : k.Base t params base) (hk : k.IsLegible) :
    '(' ∉ base.toList := by
  cases h with
  | function => exact hk.1
  | method name _ howner =>
      have howner := (ht.isTypeText howner).paren
      simpa [String.toList_append] using ⟨howner, hk.1⟩
  | constructor _ howner =>
      have howner := (ht.isTypeText howner).paren
      simpa [String.toList_append] using howner
  | operator op =>
      obtain ⟨op, rfl⟩ := hk
      exact (count_operator op).2

/-- A callable is told by its base and its parameters. -/
theorem Base.inj (ht : t.IsLegible) (hunique : t.IsUnique) (h : k.Base t params base)
    (h' : k'.Base t params base) (hk : k.IsLegible) (hk' : k'.IsLegible) : k = k' := by
  have hpoint {owner name : String} (howner : '.' ∉ owner.toList) (hname : '.' ∉ name.toList) :
      (owner ++ "." ++ name).toList.count '.' = 1 := by
    rw [String.toList_append, String.toList_append, List.count_append, List.count_append,
      List.count_eq_zero.2 howner, List.count_eq_zero.2 hname]
    decide
  rcases h.cases ht hk with ⟨hdot, hcase⟩ | ⟨owner, ownerText, name, howner, rfl, hto, hname, rfl⟩
  · rcases h'.cases ht hk' with ⟨-, hcase'⟩ | ⟨_, _, _, _, rfl, hto, hname, -⟩
    · rcases hcase with ⟨rfl, hne⟩ | ⟨op, rfl, rfl⟩
      · rcases hcase' with ⟨rfl, -⟩ | ⟨op', rfl, heq⟩
        · rfl
        · exact (hne op' heq).elim
      · rcases hcase' with ⟨rfl, hne⟩ | ⟨op', rfl, heq⟩
        · exact (hne op rfl).elim
        · rw [(String.append_right_inj _).1 heq]
    · exact (hdot (hpoint hto hname)).elim
  · rcases h'.cases ht hk' with
      ⟨hdot, -⟩ | ⟨owner', ownerText', name', howner', heq, hto', hname', rfl⟩
    · exact (hdot (hpoint hto hname)).elim
    · have hsplit : ownerText.toList ++ '.' :: name.toList =
          ownerText'.toList ++ '.' :: name'.toList := by
        simpa using congrArg String.toList heq
      obtain ⟨hownerText, -, hnames⟩ := (List.append_cons_inj_of_notMem hto hname).1 hsplit
      cases ht.eq_of_spells hunique howner howner' (String.toList_injective hownerText)
      rw [String.toList_injective hnames]

/-- The callables of a legible module are told apart by their names. -/
theorem Symbol.inj (ht : t.IsLegible) (hunique : t.IsUnique) (h : k.Symbol t text)
    (h' : k'.Symbol t text) (hk : k.IsLegible) (hk' : k'.IsLegible) : k = k' := by
  have hplain {params : List ParamSig} {base list : String} (hlist : t.SpellsParams params list)
      (hname : IsLegible (.plain (base ++ list))) : False := by
    obtain ⟨rest, hrest, -⟩ := ht.paren_of_spellsParams hlist
    refine hname ?_
    rw [String.toList_append, hrest]
    exact List.mem_append_right _ List.mem_cons_self
  rcases h.cases with rfl | ⟨params, base, list, hbase, hlist, rfl⟩
  · rcases h'.cases with rfl | ⟨params', base', list', hbase', hlist', rfl⟩
    · rfl
    · exact (hplain hlist' hk).elim
  · rcases h'.cases with rfl | ⟨params', base', list', hbase', hlist', heq⟩
    · exact (hplain hlist hk').elim
    · obtain ⟨rest, hrest, hparen⟩ := ht.paren_of_spellsParams hlist
      obtain ⟨rest', hrest', -⟩ := ht.paren_of_spellsParams hlist'
      have hsplit : base.toList ++ '(' :: rest = base'.toList ++ '(' :: rest' := by
        rw [← hrest, ← hrest', ← String.toList_append, ← String.toList_append, heq]
      obtain ⟨hbases, -, rfl⟩ :=
        (List.append_cons_inj_of_notMem (hbase.paren ht hk) hparen).1 hsplit
      obtain rfl := String.toList_injective hbases
      obtain rfl : list = list' := String.toList_injective (hrest.trans hrest'.symm)
      cases ht.eq_of_spellsParams hunique hlist hlist'
      exact hbase.inj ht hunique hbase' hk hk'

/-- A callable has one name. -/
theorem Symbol.unique {text' : String} (h : k.Symbol t text) (h' : k.Symbol t text') :
    text = text' := by
  rcases h.cases with rfl | ⟨params, base, list, hbase, hlist, rfl⟩
  · cases h'
    rfl
  · rcases h'.cases with rfl | ⟨params', base', list', hbase', hlist', rfl⟩
    · cases hbase
    · obtain ⟨rfl, rfl⟩ := hbase.unique hbase'
      rw [hlist.unique hlist']

end Callable

end SsaCompiler
