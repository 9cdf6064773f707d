/-
# Which callables share a function

The tables of lowering hold a function of the module for every callable of the program and for
every support function. When the names that a program chooses look like identifiers, two entries
have one function only if they are casts of one operand: the name of a cast in the module does not
tell the type to which it casts.
-/

import SsaCompiler.Proofs.Lower.Symbol

namespace SsaCompiler

/-- Elements of a list that are not related have one position. -/
theorem eq_of_pairwise {α : Type} {R : α → α → Prop} {l : List α} {a b : α} {i j : Nat}
    (h : l.Pairwise R) (hi : l[i]? = some a) (hj : l[j]? = some b) (hab : ¬ R a b)
    (hba : ¬ R b a) : i = j := by
  obtain ⟨hilt, rfl⟩ := List.getElem?_eq_some_iff.1 hi
  obtain ⟨hjlt, rfl⟩ := List.getElem?_eq_some_iff.1 hj
  have hall := List.pairwise_iff_getElem.1 h
  rcases Nat.lt_trichotomy i j with hlt | rfl | hlt
  · exact (hab (hall i j hilt hjlt hlt)).elim
  · rfl
  · exact (hba (hall j i hjlt hilt hlt)).elim

/-! ### Operators -/

namespace OpSymbol

/-- Every symbol of an operator. -/
def all : List OpSymbol :=
  BinaryOp.all.map binary ++ UnaryOp.all.map unary ++ [index, cast, delete]

/-- No symbol is left out. -/
theorem mem_all (op : OpSymbol) : op ∈ all := by
  cases op with
  | binary op => cases op <;> decide
  | unary op => cases op <;> decide
  | index => decide
  | cast => decide
  | delete => decide

/-- Whether an operator with a symbol takes a left and a right operand. -/
def sides : OpSymbol → Bool × Bool
  | binary _ | index => (true, true)
  | unary _ => (false, true)
  | cast | delete => (true, false)

/-- An operator is told by its text and the number of its operands. -/
theorem text_inj {a b : OpSymbol}
    (hsides : a.sides.1.toNat + a.sides.2.toNat = b.sides.1.toNat + b.sides.2.toNat)
    (htext : a.text = b.text) : a = b := by
  have hall : ∀ a ∈ all, ∀ b ∈ all, a.sides.1.toNat + a.sides.2.toNat =
      b.sides.1.toNat + b.sides.2.toNat → a.text = b.text → a = b := by decide +kernel
  exact hall a a.mem_all b b.mem_all hsides htext

end OpSymbol

/-- A key has the operands that its symbol takes, but of a cast it has the result. -/
theorem Lower.operatorKey?_eq_some {symbol : OpSymbol} {lhs rhs : Option TypeId} {ret : TypeId}
    {key : OperatorKey} (h : operatorKey? symbol lhs rhs ret = some key) :
    lhs.isSome = symbol.sides.1 ∧ rhs.isSome = symbol.sides.2 ∧
      key = ⟨lhs, symbol, if symbol = .cast then some ret else rhs⟩ := by
  unfold operatorKey? at h
  split at h <;> cases h <;> exact ⟨rfl, rfl, rfl⟩

/-- An operator is told by its text and its parameters, unless it is a cast. -/
theorem OperatorEntry.Known.key_eq_or {m : Module} {key key' : OperatorKey} {e e' : OperatorEntry}
    (h : e.Known m key) (h' : e'.Known m key') (htext : key.symbol.text = key'.symbol.text)
    (hparams : e.params = e'.params) :
    key = key' ∨ key.symbol = .cast ∧ key'.symbol = .cast := by
  obtain ⟨lhs, rhs, hsplit, hkey⟩ := h.operands
  obtain ⟨lhs', rhs', hsplit', hkey'⟩ := h'.operands
  obtain ⟨hlhs, hrhs, heq⟩ := Lower.operatorKey?_eq_some hkey
  obtain ⟨hlhs', hrhs', heq'⟩ := Lower.operatorKey?_eq_some hkey'
  rw [Option.isSome_map] at hlhs hrhs hlhs' hrhs'
  have hlists : lhs.toList ++ rhs.toList = lhs'.toList ++ rhs'.toList := by
    rw [← hsplit, ← hsplit', hparams]
  have hlength (o : Option ParamSig) : o.toList.length = o.isSome.toNat := by cases o <;> rfl
  have hsymbol : key.symbol = key'.symbol := by
    refine OpSymbol.text_inj ?_ htext
    have hlengths := congrArg List.length hlists
    rwa [List.length_append, List.length_append, hlength, hlength, hlength, hlength, hlhs, hrhs,
      hlhs', hrhs'] at hlengths
  by_cases hcast : key.symbol = .cast
  · exact .inr ⟨hcast, hsymbol ▸ hcast⟩
  · rw [if_neg hcast] at heq
    rw [← hsymbol, if_neg hcast] at heq'
    obtain ⟨hleft, hright⟩ := List.append_inj hlists
      (by rw [hlength, hlength, hlhs, hlhs', hsymbol])
    have hhead (o : Option ParamSig) : o.toList.head? = o := by cases o <;> rfl
    have hl : lhs = lhs' := by rw [← hhead lhs, hleft, hhead]
    have hr : rhs = rhs' := by rw [← hhead rhs, hright, hhead]
    exact .inl (by rw [heq, heq', hl, hr])

/-! ### Functions -/

namespace Callable

variable {entryPoint text text' : String} {params params' : List ParamSig}

/-- A function is known by its name alone or tells its parameters. -/
theorem ofFunction_cases (entryPoint text : String) (params : List ParamSig) :
    (text = entryPoint ∧ params = [] ∧ ofFunction entryPoint text params = .plain text) ∨
      ofFunction entryPoint text params = .function text params := by
  unfold ofFunction
  split
  · rename_i h
    exact .inl ⟨h.1, h.2, rfl⟩
  · exact .inr rfl

/-- A function is told by its name and its parameters. -/
theorem ofFunction_inj
    (h : ofFunction entryPoint text params = ofFunction entryPoint text' params') :
    text = text' ∧ params = params' := by
  rcases ofFunction_cases entryPoint text params with ⟨rfl, rfl, heq⟩ | heq
  · rcases ofFunction_cases text text' params' with ⟨rfl, rfl, heq'⟩ | heq'
    · exact ⟨rfl, rfl⟩
    · cases heq.symm.trans (h.trans heq')
  · rcases ofFunction_cases entryPoint text' params' with ⟨rfl, rfl, heq'⟩ | heq'
    · cases heq.symm.trans (h.trans heq')
    · exact function.inj (heq.symm.trans (h.trans heq'))

/-- Whether a callable may be a function. -/
def isFunction : Callable → Bool
  | plain _ | function .. => true
  | method .. | constructor .. | operator .. => false

/-- A function is no callable of another kind. -/
theorem ofFunction_ne {k : Callable} (hk : k.isFunction = false) :
    ofFunction entryPoint text params ≠ k := by
  rintro rfl
  rcases ofFunction_cases entryPoint text params with ⟨-, -, heq⟩ | heq
  · rw [heq] at hk
    cases hk
  · rw [heq] at hk
    cases hk

/-- The only function that is known by its name alone is the entry point. -/
theorem ofFunction_ne_plain {name : String} (hname : name ≠ entryPoint) :
    ofFunction entryPoint text params ≠ .plain name := by
  intro h
  rcases ofFunction_cases entryPoint text params with ⟨rfl, -, heq⟩ | heq
  · exact hname (plain.inj (h.symm.trans heq))
  · cases h.symm.trans heq

end Callable

/-- A support function is told by its name. -/
theorem SupportFunction.symbol_inj {g g' : SupportFunction} (h : g.symbol = g'.symbol) : g = g' := by
  revert h
  cases g <;> cases g' <;> decide

/-- The name of a support function has no bracket. -/
theorem SupportFunction.paren_notMem_symbol (g : SupportFunction) : '(' ∉ g.symbol.toList := by
  cases g <;> decide

/-! ### Entries -/

/-- A place in the tables of lowering where a function of the module is found. -/
inductive Entry where
  /-- The candidate at a position. -/
  | overload (callee : Callee) (index : Nat)
  /-- The operator at a position. -/
  | operator (index : Nat)
  | support (f : SupportFunction)
  deriving DecidableEq, Repr

namespace Context

/-- The candidate at a position. -/
def overload? (c : Context) (callee : Callee) (index : Nat) : Option Overload :=
  (callee.overloads? c.symbols).bind (·.get? index)

/-- The function that is found at a place. -/
def function? (c : Context) : Entry → Option FunctionId
  | .overload callee index => (c.overload? callee index).map (·.function)
  | .operator index => (c.operators.get? index).map (·.function)
  | .support f => c.support.declared.get? f

/-- Two places where casts of one operand are found. -/
def AreCasts (c : Context) (e e' : Entry) : Prop :=
  ∃ i j key entry key' entry', e = .operator i ∧ e' = .operator j ∧
    c.operators.entries[i]? = some (key, entry) ∧ c.operators.entries[j]? = some (key', entry') ∧
    key.symbol = .cast ∧ key'.symbol = .cast ∧ entry.params = entry'.params

end Context

/-- The texts of names are told apart and look like identifiers or like instances of templates. No
text is that of a constructor or of an operator. -/
structure Names.IsLegible (ns : Names) : Prop where
  unique : ∀ {n n' text}, ns.text n = .ok text → ns.text n' = .ok text → n = n'
  paren : ∀ {n text}, ns.text n = .ok text → '(' ∉ text.toList
  dot : ∀ {n text}, ns.text n = .ok text → '.' ∉ text.toList
  constructor : ∀ {n text}, ns.text n = .ok text → text ≠ "new"
  operator : ∀ {n text}, ns.text n = .ok text → ∀ op : OpSymbol, text ≠ "operator" ++ op.text

/-- Names are legible when their texts are. -/
theorem Names.IsLegible.of_texts {ns : Names} (hunique : ns.texts.toList.Nodup)
    (htexts : ∀ text ∈ ns.texts.toList, '(' ∉ text.toList ∧ '.' ∉ text.toList ∧ text ≠ "new" ∧
      ∀ op ∈ OpSymbol.all, text ≠ "operator" ++ op.text) : ns.IsLegible := by
  have hmem {n : Name} {text : String} (h : ns.text n = .ok text) :
      ns.texts.toList[n.index]? = some text := by
    rw [Array.getElem?_toList]
    exact Checked.at_eq_ok_iff.1 h
  have hlegible {n : Name} {text : String} (h : ns.text n = .ok text) :=
    htexts text (List.mem_of_getElem? (hmem h))
  refine ⟨fun {n n' text} h h' => ?_, fun h => (hlegible h).1, fun h => (hlegible h).2.1,
    fun h => (hlegible h).2.2.1, fun h op => (hlegible h).2.2.2 op op.mem_all⟩
  have hindex := eq_of_pairwise hunique (hmem h) (hmem h') (fun hne => hne rfl) fun hne => hne rfl
  exact congrArg Name.mk hindex

/-- Structures are legible when their names are and none has the name of another. -/
theorem TypeTable.IsLegible.of_types {t : TypeTable}
    (hnames : ∀ ty ∈ t.types.toList, ∀ name ∈ ty.structName?, IsStructName name)
    (hunique : (t.types.toList.filterMap IrType.structName?).Nodup) : t.IsLegible := by
  have hmem {id : TypeId} {name : String} {body : Option (List TypeId)}
      (h : t.get id = .ok (.named name body)) :
      t.types.toList[id.index]? = some (.named name body) := by
    rw [Array.getElem?_toList]
    exact Checked.at_eq_ok_iff.1 h
  refine ⟨fun h => hnames _ (List.mem_of_getElem? (hmem h)) _ rfl, fun {i j name _ _} h h' => ?_⟩
  have hpairwise := List.pairwise_filterMap.1 hunique
  have hindex := eq_of_pairwise hpairwise (hmem h) (hmem h') (fun hne => hne _ rfl _ rfl rfl)
    fun hne => hne _ rfl _ rfl rfl
  exact congrArg TypeId.mk hindex

namespace Compilation

variable {c : Compilation} {e e' : Entry} {k k' : Callable} {f f' : FunctionId}

/-- What is found at a place is a certain callable. -/
inductive Tells (c : Compilation) : Entry → Callable → Prop where
  | function {name : Name} {i : Nat} {o : Overload} {text : String}
      (ho : c.context.overload? (.function name) i = some o)
      (htext : c.names.text name = .ok text) :
      Tells c (.overload (.function name) i)
        (.ofFunction c.context.options.entryPoint text o.params)
  | method {object : TypeId} {name : Name} {i : Nat} {o : Overload} {text : String}
      (ho : c.context.overload? (.method object name) i = some o)
      (htext : c.names.text name = .ok text) :
      Tells c (.overload (.method object name) i) (.method object text o.params)
  | constructor {object : TypeId} {i : Nat} {o : Overload}
      (ho : c.context.overload? (.constructor object) i = some o) :
      Tells c (.overload (.constructor object) i) (.constructor object o.params)
  | operator {i : Nat} {key : OperatorKey} {entry : OperatorEntry}
      (hentry : c.context.operators.entries[i]? = some (key, entry)) :
      Tells c (.operator i) (.operator key.symbol.text entry.params)
  | support (f : SupportFunction) : Tells c (.support f) (.plain f.symbol)

/-- The objects of a compilation have types of their own. -/
theorem IsBuilt.eq_of_byType (h : c.IsBuilt) (htypes : c.module.types.IsLegible) {name : Name}
    {ty ty' : TypeId} (hty : c.context.symbols.byType.get? ty = some name)
    (hty' : c.context.symbols.byType.get? ty' = some name) : ty = ty' := by
  obtain ⟨text, body, htext, hget⟩ := h.progresses.2.structures hty
  obtain ⟨text', body', htext', hget'⟩ := h.progresses.2.structures hty'
  cases htext.symm.trans htext'
  exact htypes.unique hget hget'

/-- A function that is found at a place bears the name of the callable there. -/
theorem IsBuilt.exists_tells (h : c.IsBuilt) (htypes : c.module.types.IsLegible)
    (he : c.context.function? e = some f) : ∃ k, c.Tells e k ∧ c.module.Implements k f := by
  have hknown := h.progresses.2
  cases e with
  | overload callee i =>
      obtain ⟨o, ho, rfl⟩ := Option.map_eq_some_iff.1 he
      obtain ⟨set, hset, hget⟩ := Option.bind_eq_some_iff.1 ho
      have hmem : o ∈ set.overloads := List.mem_of_getElem? hget
      cases callee with
      | function name =>
          obtain ⟨text, htext, himpl⟩ := (hknown.functions hset).each o hmem
          exact ⟨_, .function ho htext, himpl⟩
      | method object name =>
          obtain ⟨info, hinfo, hset⟩ := Option.bind_eq_some_iff.1 hset
          obtain ⟨owner, howner, hobject⟩ := Option.bind_eq_some_iff.1 hinfo
          obtain ⟨ty, hty, text, htext, himpl⟩ := ((hknown.objects hobject).methods hset).each o hmem
          cases h.eq_of_byType htypes hty howner
          exact ⟨_, .method ho htext, himpl⟩
      | constructor object =>
          obtain ⟨info, hinfo, rfl⟩ := Option.map_eq_some_iff.1 hset
          obtain ⟨owner, howner, hobject⟩ := Option.bind_eq_some_iff.1 hinfo
          obtain ⟨ty, hty, himpl⟩ := (hknown.objects hobject).constructors.each o hmem
          cases h.eq_of_byType htypes hty howner
          exact ⟨_, .constructor ho, himpl⟩
  | operator i =>
      obtain ⟨entry, hentry, rfl⟩ := Option.map_eq_some_iff.1 he
      obtain ⟨⟨key, entry⟩, hget, rfl⟩ := Option.map_eq_some_iff.1 hentry
      exact ⟨_, .operator hget, (hknown.operators _ (List.mem_of_getElem? hget)).function⟩
  | support g => exact ⟨_, .support g, hknown.support he⟩

/-- The candidates of a callee are told apart. -/
theorem IsBuilt.eq_of_params (h : c.IsBuilt) {callee : Callee} {i j : Nat} {o o' : Overload}
    (ho : c.context.overload? callee i = some o) (ho' : c.context.overload? callee j = some o')
    (hparams : o.params = o'.params) : i = j := by
  have hknown := h.progresses.2
  obtain ⟨set, hset, hi⟩ := Option.bind_eq_some_iff.1 ho
  obtain ⟨set', hset', hj⟩ := Option.bind_eq_some_iff.1 ho'
  cases hset.symm.trans hset'
  have hapart : set.overloads.Pairwise fun a b => a.params ≠ b.params := by
    cases callee with
    | function name => exact (hknown.functions hset).apart
    | method object name =>
        obtain ⟨info, hinfo, hset⟩ := Option.bind_eq_some_iff.1 hset
        obtain ⟨owner, -, hobject⟩ := Option.bind_eq_some_iff.1 hinfo
        exact ((hknown.objects hobject).methods hset).apart
    | constructor object =>
        obtain ⟨info, hinfo, rfl⟩ := Option.map_eq_some_iff.1 hset
        obtain ⟨owner, -, hobject⟩ := Option.bind_eq_some_iff.1 hinfo
        exact (hknown.objects hobject).constructors.apart
  exact eq_of_pairwise hapart hi hj (fun hne => hne hparams) fun hne => hne hparams.symm

/-- A callable of a program with legible names is legible. -/
theorem Tells.isLegible (h : c.Tells e k) (hnames : c.names.IsLegible) : k.IsLegible := by
  cases h with
  | @function name i o text ho htext =>
      rcases Callable.ofFunction_cases c.context.options.entryPoint text o.params with
        ⟨-, -, heq⟩ | heq
      · rw [heq]
        exact hnames.paren htext
      · rw [heq]
        exact ⟨hnames.paren htext, hnames.dot htext, hnames.operator htext⟩
  | method ho htext => exact ⟨hnames.paren htext, hnames.dot htext, hnames.constructor htext⟩
  | constructor ho => trivial
  | @operator i key entry hentry => exact ⟨key.symbol, rfl⟩
  | support g => exact g.paren_notMem_symbol

/-- Two places tell the same callable only if they are one place or if casts are found there. -/
theorem IsBuilt.eq_or_areCasts (h : c.IsBuilt) (hnames : c.names.IsLegible)
    (hentry : ∀ g : SupportFunction, g.symbol ≠ c.context.options.entryPoint)
    (he : c.Tells e k) (he' : c.Tells e' k') (heq : k = k') :
    e = e' ∨ c.context.AreCasts e e' := by
  cases he with
  | @function name i o text ho htext =>
      cases he' with
      | @function name' j o' text' ho' htext' =>
          obtain ⟨rfl, hparams⟩ := Callable.ofFunction_inj heq
          cases hnames.unique htext htext'
          exact .inl (by rw [h.eq_of_params ho ho' hparams])
      | support g => exact (Callable.ofFunction_ne_plain (hentry g) heq).elim
      | _ => exact (Callable.ofFunction_ne rfl heq).elim
  | method ho htext =>
      cases he' with
      | function _ _ => exact (Callable.ofFunction_ne rfl heq.symm).elim
      | method ho' htext' =>
          obtain ⟨rfl, rfl, hparams⟩ := Callable.method.inj heq
          cases hnames.unique htext htext'
          exact .inl (by rw [h.eq_of_params ho ho' hparams])
      | _ => cases heq
  | constructor ho =>
      cases he' with
      | function _ _ => exact (Callable.ofFunction_ne rfl heq.symm).elim
      | constructor ho' =>
          obtain ⟨rfl, hparams⟩ := Callable.constructor.inj heq
          exact .inl (by rw [h.eq_of_params ho ho' hparams])
      | _ => cases heq
  | operator hi =>
      cases he' with
      | function _ _ => exact (Callable.ofFunction_ne rfl heq.symm).elim
      | operator hj =>
          obtain ⟨htext, hparams⟩ := Callable.operator.inj heq
          have hknown := h.progresses.2
          rcases (hknown.operators _ (List.mem_of_getElem? hi)).key_eq_or
            (hknown.operators _ (List.mem_of_getElem? hj)) htext hparams with hkey | ⟨hcast, hcast'⟩
          · subst hkey
            exact .inl (by rw [hknown.keys.eq_of_key hi hj])
          · exact .inr ⟨_, _, _, _, _, _, rfl, rfl, hi, hj, hcast, hcast', hparams⟩
      | _ => cases heq
  | support g =>
      cases he' with
      | function _ _ => exact (Callable.ofFunction_ne_plain (hentry g) heq.symm).elim
      | support g' => exact .inl (by rw [SupportFunction.symbol_inj (Callable.plain.inj heq)])
      | _ => cases heq

/-- Casts of one operand have one function. -/
theorem IsBuilt.function?_eq_of_areCasts (h : c.IsBuilt) (hcasts : c.context.AreCasts e e') :
    c.context.function? e = c.context.function? e' := by
  obtain ⟨i, j, key, entry, key', entry', rfl, rfl, hi, hj, hcast, hcast', hparams⟩ := hcasts
  have hknown := h.progresses.2
  obtain ⟨symbol, hsymbol, hf⟩ := (hknown.operators _ (List.mem_of_getElem? hi)).function
  obtain ⟨symbol', hsymbol', hf'⟩ := (hknown.operators _ (List.mem_of_getElem? hj)).function
  rw [hcast, hparams] at hsymbol
  rw [hcast'] at hsymbol'
  rw [hsymbol.unique hsymbol', hf'] at hf
  simp only [Context.function?, OperatorTable.get?, hi, hj, Option.map_some]
  exact hf.symm

/-- When the names that a program chooses are legible and the entry point is not called like a
support function, two places in the tables have functions of their own: free functions, methods,
constructors, operators and support functions. Only casts of one operand share a function, whatever
their results are. -/
theorem functions_are_shared_by_casts_only (h : c.IsBuilt) (htypes : c.module.types.IsLegible)
    (hnames : c.names.IsLegible)
    (hentry : ∀ g : SupportFunction, g.symbol ≠ c.context.options.entryPoint)
    (he : c.context.function? e = some f) (he' : c.context.function? e' = some f') :
    f = f' ↔ e = e' ∨ c.context.AreCasts e e' := by
  constructor
  · rintro rfl
    obtain ⟨k, htells, symbol, hsymbol, hf⟩ := h.exists_tells htypes he
    obtain ⟨k', htells', symbol', hsymbol', hf'⟩ := h.exists_tells htypes he'
    cases Module.eq_of_functionByName? hf hf'
    refine h.eq_or_areCasts hnames hentry htells htells' ?_
    exact hsymbol.inj htypes c.module.isUnique hsymbol'
      (htells.isLegible hnames) (htells'.isLegible hnames)
  · rintro (rfl | hcasts)
    · exact Option.some.inj (he.symm.trans he')
    · exact Option.some.inj (he.symm.trans ((h.function?_eq_of_areCasts hcasts).trans he'))

/-- An object with two casts, to an integer and to a longer one. -/
def castProgram : Node :=
  let node (id : Nat) (kind : NodeKind Node) : Node := ⟨id, .unknown, kind⟩
  let object := node 0 (.object ⟨⟨3⟩, [⟨⟨4⟩, .prim .int⟩], []⟩)
  let operand : Field := ⟨⟨5⟩, .named ⟨3⟩⟩
  let toInt := node 2 (.operator ⟨some operand, .cast, none, .prim .int, node 1 (.block [])⟩)
  let toLong := node 4 (.operator ⟨some operand, .cast, none, .prim .long, node 3 (.block [])⟩)
  let main := node 6 (.function ⟨⟨6⟩, [], .prim .int, node 5 (.block [])⟩)
  node 7 (.module [object, toInt, toLong, main])

/-- The compilation in which the program has been read. -/
def castCompilation : Compilation := reading "cast" #["P", "x", "p", "main"]

/-- Nothing is reported, but the casts to different types have one function. -/
theorem casts_of_lower_castProgram : ∃ outcome c',
    castCompilation.lower (some castProgram) = .ok (.ok outcome, c') ∧ outcome.errorCount = 0 ∧
      c'.context.operators.entries.map (fun entry => (entry.1, entry.2.function)) =
        [(.binary ⟨0⟩ .cast ⟨1⟩, ⟨0⟩), (.binary ⟨0⟩ .cast ⟨5⟩, ⟨0⟩)] ∧
      c'.context.function? (.operator 0) = c'.context.function? (.operator 1) :=
  exists_of_leaves (by decide +kernel)

/-- The casts share their function with each other, but not with the entry point. -/
theorem functions_are_shared_by_casts_only_castProgram : ∃ c' : Compilation,
    c'.IsBuilt ∧ c'.module.types.IsLegible ∧ c'.names.IsLegible ∧
      (∀ g : SupportFunction, g.symbol ≠ c'.context.options.entryPoint) ∧
      c'.context.AreCasts (.operator 0) (.operator 1) ∧
      ¬ c'.context.AreCasts (.operator 0) (.overload (.function ⟨6⟩) 0) := by
  have hrun : ∃ outcome c', castCompilation.lower (some castProgram) = .ok (.ok outcome, c') ∧
      c'.module.types.types.toList.filterMap IrType.structName? = ["P"] ∧
      c'.names.texts = #["", "Array", "T", "P", "x", "p", "main", "this"] ∧
      (∀ g ∈ SupportFunction.all, g.symbol ≠ c'.context.options.entryPoint) ∧
      c'.context.function? (.operator 0) = some ⟨0⟩ ∧
      c'.context.function? (.operator 1) = some ⟨0⟩ ∧
      c'.context.function? (.overload (.function ⟨6⟩) 0) = some ⟨1⟩ :=
    exists_of_leaves (by decide +kernel)
  obtain ⟨outcome, c', hlower, hstructs, htexts, hsupport, hfirst, hsecond, hmain⟩ := hrun
  have hbuilt : c'.IsBuilt := .lower (isBuilt_reading "cast" _) hlower
  have htypes : c'.module.types.IsLegible := by
    refine .of_types (fun ty hty name hname => ?_) (by rw [hstructs]; decide)
    have hmem := List.mem_filterMap.2 ⟨ty, hty, hname⟩
    rw [hstructs] at hmem
    cases List.mem_singleton.1 hmem
    exact ⟨⟨.of_notMem (by decide) (by decide), by decide, by decide, by decide, by decide⟩,
      by decide, by decide⟩
  have hnames : c'.names.IsLegible := .of_texts (by rw [htexts]; decide)
    (by rw [htexts]; decide +kernel)
  have hentry (g : SupportFunction) : g.symbol ≠ c'.context.options.entryPoint :=
    hsupport g (by cases g <;> decide)
  refine ⟨c', hbuilt, htypes, hnames, hentry, ?_, fun hcasts => ?_⟩
  · have hiff := functions_are_shared_by_casts_only hbuilt htypes hnames hentry hfirst hsecond
    exact (hiff.1 rfl).resolve_left (by decide)
  · have hiff := functions_are_shared_by_casts_only hbuilt htypes hnames hentry hfirst hmain
    exact absurd (hiff.2 (.inr hcasts)) (by decide)

end Compilation

end SsaCompiler
