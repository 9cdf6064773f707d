/-
# Callables are found when their bodies are lowered

A declaration enters a callable in its table before its body is left for later, and what has been
entered stays. So when the body has been lowered the callable is found, and the exceptions that may
come out of it are written down.

The object of a method or of a constructor has to be known by its type for this. A name that is
declared as an object gets such a type at once.
-/

import SsaCompiler.Proofs.Lower.Composed.Node
import SsaCompiler.Proofs.Lower.Intact
import SsaCompiler.Proofs.Lower.Stepwise.Callable

namespace SsaCompiler

open Lower

variable {α β : Type} {L : Leeway} {s : Lowering} {r : Recur}

/-! ### Steps -/

/-- What is put together from secure computations is secure. -/
theorem IsSecure.of_composed {x : Lower α} [hx : Composed IsSecured .free x] : IsSecure x s :=
  hx.isSecure fun _ hindex => hindex.elim

/-- A computation behind a secure one. -/
theorem Secures.step {x : Lower α} {f : α → Lower β} {R : Lowering → β → Prop}
    [hx : Composed IsSecured .free x]
    (hf : ∀ a s', s.Retains s' → s'.IsIntact → Secures R (f a) s') : Secures R (x >>= f) s :=
  IsSecure.of_composed.bind fun a s' h hs' _ => hf a s' h hs'

/-- An attempt behind a secure one. -/
theorem Grants.step {x : Attempt α} {f : α → Attempt β} {R : Lowering → β → Prop}
    [hx : Composed IsSecured .free x.run]
    (hf : ∀ a s', s.Retains s' → s'.IsIntact → Grants R (f a) s') : Grants R (x >>= f) s :=
  (Attempt.Maintains.of_run IsSecure.of_composed).bind fun a s' h hs' _ => hf a s' h hs'

theorem secures_modifySymbols {g : SymbolTable → SymbolTable}
    (hretains : s.context.symbols.Retains (g s.context.symbols))
    (hlinked : s.context.symbols.IsLinked → (g s.context.symbols).IsLinked)
    (hbyType : (g s.context.symbols).byType = s.context.symbols.byType) :
    Secures (fun s' _ => s'.context.symbols = g s.context.symbols) (modifySymbols g) s where
  run hs h := by
    obtain ⟨hretains, hs', rfl⟩ := (Secures.modifyContext (f := fun c =>
      { c with symbols := g c.symbols }) ⟨hretains, Nat.le_refl _, .refl _⟩ fun hc =>
        ⟨hlinked hc.symbols, fun hname => hc.types (hbyType ▸ hname), hc.operators,
          hc.templates⟩).run hs h
    exact ⟨hretains, hs', rfl⟩

/-- An operator that is found has a position of the table. -/
theorem grants_findOperator (key : OperatorKey) (span : Span) (s : Lowering) :
    Grants (fun s' o => ∀ index ∈ o, index < s'.context.operators.size) (findOperator key span) s := by
  unfold findOperator
  refine (Attempt.Maintains.lift .get).bind fun a s₁ _ hs₁ hsame => ?_
  obtain ⟨rfl, rfl⟩ := hsame
  dsimp only
  split
  · exact .pure fun index hindex => by cases hindex
  · refine Grants.step fun pointee s₂ h₂ hs₂ => ?_
    split
    · rename_i index hfound
      refine .pure fun other hother => ?_
      cases hother
      exact Nat.lt_of_lt_of_le (OperatorTable.lt_size_of_lookup hs₁.tables.operators hfound)
        h₂.tables.operators
    · exact .pure fun index hindex => by cases hindex
    · exact Grants.step fun _ s₃ _ _ => .reject (Secures.report ..)

/-- An operator that may be called is there. -/
theorem isSecure_withOperator {index : Nat} {label : String} {k : OperatorEntry → Attempt α}
    (hindex : index < s.context.operators.size) (hk : ∀ entry, IsSecure (k entry).run s) :
    IsSecure (withOperator index label k).run s where
  run {o s'} hs h := by
    obtain ⟨entry, hentry⟩ := OperatorTable.exists_get? hindex
    have hfound : (withOperator index label k).run s = (k entry).run s := by
      unfold withOperator
      refine (congrFun (Attempt.run_bind_lift (get : Lower Lowering) _) s).trans ?_
      rw [bind_of_ok (get_apply s), hentry]
    exact (hk entry).run hs (hfound ▸ h)

/-- An operator that has been found may be called in what follows. -/
theorem isSecure_findOperator_bind {key : OperatorKey} {span : Span} {k : Option Nat → Attempt α}
    (hL : ∀ index ∈ L.operators, index < s.context.operators.size)
    (hnone : Composed IsSecured L (k none).run)
    (hsome : ∀ index, Composed IsSecured (L.calling index) (k (some index)).run) :
    IsSecure (findOperator key span >>= k).run s := by
  refine Maintains.unit ((grants_findOperator key span s).bind (T := fun _ _ => True)
    fun o s₁ h₁ _ ho => .of_run ?_)
  have hL₁ : ∀ index ∈ L.operators, index < s₁.context.operators.size := fun index hindex =>
    Nat.lt_of_lt_of_le (hL index hindex) h₁.tables.operators
  cases o with
  | none => exact hnone.isSecure hL₁
  | some index =>
      refine (hsome index).isSecure fun other hother => ?_
      rcases Set.mem_insert_iff.1 hother with rfl | hother
      · exact ho other rfl
      · exact hL₁ other hother

/-- Room on the stack is made by a request to the module. -/
theorem isSecure_entryAlloca (ty : TypeId) : IsSecure (entryAlloca ty) s where
  run hs h := by
    obtain ⟨m, hrun, rfl⟩ := entryAlloca_eq_ok h
    have htypes := (Build.GrowsLoosely.later hrun).size
    have hlater := hs.withModule (m := { m with position := s.module.position.or m.position }) htypes
    exact ⟨hlater.1, hlater.2, trivial⟩

/-- What expressions and statements do is secure. -/
instance : HasSteps IsSecured where
  still b _ _ _ _ := by
    have : b.GrowsLoosely := .of_stepwise b
    exact .part fun _ _ => Secures.build b
  alloca ty := .part fun _ _ => Secures.build (Build.alloca ty)
  choose b _ ty incoming := .part fun _ _ => Secures.build (choose b ty incoming)
  entryAlloca ty := .part fun _ _ => isSecure_entryAlloca ty
  entries hf htemplates _ := .part fun _ _ =>
    Secures.sameEntries (hf _) (congrArg (·.templates) (htemplates _))
  support {L} f := by
    have (table : SupportTable) :
        Composed IsSecured L (modifyContext fun c => { c with support := table }) :=
      .part fun _ _ => (Secures.modifyContext ⟨.refl _, Nat.le_refl _, .refl _⟩ fun hc =>
        ⟨hc.symbols, hc.types, hc.operators, hc.templates⟩).unit
    have (b : Build (FunctionId × SupportTable)) [b.GrowsLoosely] : Composed IsSecured L
        (liftM b : Lower (FunctionId × SupportTable)) := .part fun _ _ => Secures.build b
    exact .get (fun _ _ => rfl) fun _ => inferInstance
  operator index hindex label hk := .part fun _ hL =>
    isSecure_withOperator (hL index hindex.mem) fun entry => (hk entry).isSecure hL
  found key span hnone hsome := .part fun _ hL => isSecure_findOperator_bind hL hnone hsome

instance (name : String) : Composed IsSecured L (appendBlock name) :=
  .part fun s _ => isSecure_appendBlock name s

/-! ### Names of objects -/

/-- A new structure comes behind the types that are there. -/
theorem secures_namedStruct (text : String) (s : Lowering) :
    Secures (fun s' ty => s'.context = s.context ∧ ty.index = s.module.types.size ∧
      ty.index < s'.module.types.size) (liftM (Build.namedStruct text) : Lower TypeId) s where
  run hs h := by
    obtain ⟨m, hrun, rfl⟩ := build_eq_ok_iff.1 h
    cases hrun
    have hlt : s.module.types.size < (s.module.types.namedStruct text).2.size :=
      (Nat.lt_succ_self _).trans_eq (Array.size_push _).symm
    obtain ⟨hretains, hs'⟩ := hs.withModule (m := s.module.withTypes
      (s.module.types.namedStruct text).2 (s.module.typesIndexed.namedStruct text)) hlt.le
    exact ⟨hretains, hs', rfl, rfl, hlt⟩

/-- A new object gets the type of a new structure. -/
theorem secures_declareNew {name : Name} {ty : TypeId}
    (hname : s.context.symbols.objects.get? name = none)
    (hty : s.context.symbols.byType.get? ty = none) (hlt : ty.index < s.module.types.size) :
    Secures (fun s' _ => s'.context =
        { s.context with symbols := s.context.symbols.declareObject (.new name ty) })
      (modifySymbols (·.declareObject (.new name ty))) s where
  run hs h := by
    obtain ⟨hretains, hs', rfl⟩ := (Secures.modifyContext (f := fun c =>
      { c with symbols := c.symbols.declareObject (.new name ty) })
        ⟨SymbolTable.retains_declareObject hname hty, Nat.le_refl _, .refl _⟩ fun hc =>
        ⟨hc.symbols.declareObject, fun {ty' name'} hget => by
          have hget : (s.context.symbols.byType.insert ty name).get? ty' = some name' := hget
          rw [Table.get?_insert] at hget
          split at hget
          · rename_i heq
            exact heq ▸ hlt
          · exact hc.types hget, hc.operators, hc.templates⟩).run hs h
    exact ⟨hretains, hs', rfl⟩

/-- A type that leads to a name is one of the module. -/
theorem Lowering.IsIntact.byType_eq_none (hs : s.IsIntact) {ty : TypeId}
    (hty : ty.index = s.module.types.size) : s.context.symbols.byType.get? ty = none := by
  refine Option.eq_none_iff_forall_ne_some.2 fun name hname => ?_
  have := hs.tables.types hname
  omega

/-- A name that is found stands for an object with the type. -/
theorem grants_namedType (name : Name) (declaring : Bool) (span : Span) (s : Lowering) :
    Grants (fun s' ty => ∃ info, s'.context.symbols.objects.get? name = some info ∧ info.ty = ty)
      (namedType name declaring span) s := by
  unfold namedType
  refine (Attempt.Maintains.lift .symbols).bind fun table s₁ _ hs₁ hsame => ?_
  obtain ⟨rfl, rfl⟩ := hsame
  split
  · rename_i info hinfo
    exact .pure ⟨info, hinfo, rfl⟩
  · rename_i hname
    refine (Attempt.Maintains.lift (.nameText name)).bind fun text s₂ _ hs₂ hsame => ?_
    obtain ⟨rfl, -⟩ := hsame
    refine (Attempt.Maintains.lift .get).bind fun a s₃ _ hs₃ hsame => ?_
    obtain ⟨rfl, rfl⟩ := hsame
    split
    · exact .reject (Secures.report ..)
    · split
      · refine (Attempt.Maintains.lift (secures_namedStruct text a)).bind fun ty s₄ h₄ hs₄ hnew => ?_
        obtain ⟨hcontext, hty, hlt⟩ := hnew
        have hbyType := hs₃.byType_eq_none hty
        rw [← hcontext] at hname hbyType
        refine (Attempt.Maintains.lift (secures_declareNew hname hbyType hlt)).bind fun _ s₅ _ _ hsame =>
          .pure ⟨.new name ty, ?_, rfl⟩
        rw [hsame]
        exact Table.get?_insert.trans (if_pos rfl)
      · exact .reject (Secures.report ..)

/-- Children of a node are lowered securely. -/
class Recur.IsSecure (r : Recur) : Prop where
  operand : ∀ node s, SsaCompiler.IsSecure (r.operand node) s
  condition : ∀ cond thenTo elseTo s, SsaCompiler.IsSecure (r.condition cond thenTo elseTo) s
  instantiate : ∀ name args span s, SsaCompiler.IsSecure (r.instantiate name args span) s

instance (name : Name) (declaring : Bool) (span : Span) :
    Composed IsSecured L (namedType name declaring span).run :=
  .part fun s _ => (grants_namedType name declaring span s).unit

instance [hr : r.IsSecure] (name : Name) (args : List TypeId) (span : Span) :
    Composed IsSecured L (r.instantiate name args span) :=
  .part fun s _ => hr.instantiate name args span s

instance [hr : r.IsSecure] : r.HasParts IsSecured where
  operand node := .part fun s _ => hr.operand node s
  condition cond thenTo elseTo := .part fun s _ => hr.condition cond thenTo elseTo s
  type := composed_type r

/-! ### Declarations -/

/-- A body is left for later when its callable has been entered. -/
theorem isSecure_postpone {node : Nat} {pending : PendingCallable}
    (hfinds : s.context.Finds pending.function pending.owner) :
    IsSecure (postpone node pending) s := by
  refine Secures.modifyPass rfl rfl fun hs {other p} hp => ?_
  have hp : (s.pass.pending.insert node pending).get? other = some p := hp
  rw [Table.get?_insert] at hp
  split at hp
  · cases hp
    exact hfinds
  · exact hs.pending hp

/-- The object of a callable is there later on. -/
theorem Callee.IsKnown.mono {callee : Callee} {t t' : SymbolTable} (h : callee.IsKnown t)
    (hlater : t.Retains t') : callee.IsKnown t' := by
  cases callee with
  | function name => trivial
  | method object name => exact SymbolTable.HasType.mono h hlater
  | constructor object => exact SymbolTable.HasType.mono h hlater

/-- A function, a method or a constructor is entered before its body is left for later. -/
theorem isSecure_declareCallee {node : Nat} {callee : Callee} {symbol : String}
    {sig : CallableSig} {thisTy : Option TypeId} {body : Option Node} {span : Span}
    (hknown : callee.IsKnown s.context.symbols) :
    IsSecure (declareCallee node callee symbol sig thisTy body span) s := by
  unfold declareCallee
  refine Secures.step fun fnTy s₁ h₁ _ => Secures.step fun function s₂ h₂ _ => ?_
  have hknown₂ := hknown.mono (h₁.trans h₂).tables.symbols
  refine Maintains.symbols.bind fun table s₃ _ hs₃ hsame => ?_
  obtain ⟨rfl, rfl⟩ := hsame
  have hbyType := callee.byType_declare s₃.context.symbols ⟨symbol, sig.params, sig.ret, sig.retRef,
    function, []⟩
  rcases hknown₂.declares ⟨symbol, sig.params, sig.ret, sig.retRef, function, []⟩ with
    htaken | ⟨hentered, hretains, hlinked, hfinds⟩
  · dsimp only
    rw [htaken]
    exact (secures_modifySymbols (.refl _) id rfl).bind fun _ s₄ _ _ _ => Secures.report ..
  · dsimp only
    rw [hentered] at hbyType ⊢
    refine (secures_modifySymbols hretains hlinked hbyType).bind fun _ s₄ _ _ hsame => ?_
    exact isSecure_postpone (show Callee.Finds s₄.context.symbols function callee from hsame ▸ hfinds)

/-- An operator that is entered is found at its position. -/
theorem grants_enterOperator (key : OperatorKey) (symbol : String) (sig : CallableSig) (span : Span)
    (s : Lowering) : Grants (fun s' entered => entered.2 < s'.context.operators.size)
      (enterOperator key symbol sig span) s := by
  unfold enterOperator
  refine Grants.step fun fnTy s₁ _ _ => Grants.step fun function s₂ _ _ => ?_
  refine (Attempt.Maintains.lift .get).bind fun a s₃ _ hs₃ hsame => ?_
  obtain ⟨rfl, rfl⟩ := hsame
  split
  · rename_i index table hinsert
    obtain ⟨-, hindex, htable⟩ := OperatorTable.insert_eq_some_iff.1 hinsert
    have hsize : table.size = a.context.operators.size + 1 := by
      rw [htable]
      exact List.length_append
    have hgrow : a.context.operators.size ≤ table.size := hsize ▸ Nat.le_succ _
    refine (Attempt.Maintains.lift (Secures.modifyContext (f := fun c => { c with operators := table })
      ⟨.refl _, hgrow, .refl _⟩ fun hc => ⟨hc.symbols, hc.types, hc.operators.insert hinsert,
        hc.templates⟩)).bind fun _ s₄ _ _ hsame => .pure ?_
    rw [hsame, hindex]
    change a.context.operators.size < table.size
    omega
  · exact .reject (Secures.report ..)

/-- When the exceptions of a callable are known it is found. -/
theorem isSecure_recordThrows {pending : PendingCallable} {throws : ThrowSet}
    (hfinds : s.context.Finds pending.function pending.owner) :
    IsSecure (recordThrows pending throws) s := by
  unfold recordThrows
  dsimp only
  split
  · rename_i callee howner
    rw [howner] at hfinds
    refine Maintains.symbols.bind fun table s₁ _ hs₁ hsame => ?_
    obtain ⟨rfl, rfl⟩ := hsame
    obtain ⟨o, ho⟩ := Option.isSome_iff_exists.1 hfinds
    rw [ho]
    have hsame (set : OverloadSet) : set.Retains
        (set.modifyByFunction pending.function fun o => { o with throws := throws }) := by
      rw [OverloadSet.Retains, OverloadSet.functions_modifyByFunction
        (g := fun o : Overload => { o with throws := throws }) fun _ => rfl]
      exact List.Subset.refl _
    obtain ⟨hretains, hlinked⟩ := Callee.retains_modify hsame s₁.context.symbols callee
    exact (secures_modifySymbols hretains hlinked (callee.byType_modify _ _)).unit
  · rename_i index howner
    rw [howner] at hfinds
    refine Maintains.get.bind fun a s₁ _ hs₁ hsame => ?_
    obtain ⟨rfl, rfl⟩ := hsame
    obtain ⟨entry, hentry⟩ := OperatorTable.exists_get? hfinds
    rw [hentry]
    have hsize : (a.context.operators.modify index fun e => { e with throws := throws }).size =
        a.context.operators.size := List.length_modify _ _ _
    exact (Secures.modifyContext ⟨.refl _, hsize.ge, .refl _⟩ fun hc =>
      ⟨hc.symbols, hc.types, hc.operators.modify index _, hc.templates⟩).unit

section

variable [hr : r.IsSecure]

theorem grants_declareFunction (node : Nat) (decl : FunctionDecl Node) (span : Span)
    (s : Lowering) : Grants (fun _ _ => True) (r.declareFunction node decl span) s := by
  unfold Recur.declareFunction
  refine Grants.step fun isNew s₁ _ _ => ?_
  split
  · refine Grants.step fun sig s₂ _ _ => Grants.step fun name s₃ _ _ => ?_
    refine (Attempt.Maintains.lift .get).bind fun a s₄ _ _ _ => ?_
    dsimp only
    split
    · exact .lift (isSecure_declareCallee trivial)
    · exact Grants.step fun symbol s₅ _ _ => .lift (isSecure_declareCallee trivial)
  · exact .pure trivial

/-- A method is declared for an object that is there. -/
theorem grants_declareMethod (node : Nat) {object : TypeId} (decl : FunctionDecl Node) (span : Span)
    (hobject : s.context.symbols.HasType object) :
    Grants (fun _ _ => True) (r.declareMethod node object decl span) s := by
  unfold Recur.declareMethod
  refine Grants.step fun isNew s₁ h₁ _ => ?_
  split
  · refine Grants.step fun sig s₂ h₂ _ => Grants.step fun owner s₃ h₃ _ =>
      Grants.step fun name s₄ h₄ _ => Grants.step fun symbol s₅ h₅ _ => ?_
    have hlater := h₁.trans (h₂.trans (h₃.trans (h₄.trans h₅)))
    exact .lift (isSecure_declareCallee (hobject.mono hlater.tables.symbols))
  · exact .pure trivial

theorem grants_declareConstructor (node : Nat) {object : TypeId} (decl : ConstructorDecl Node)
    (span : Span) (hobject : s.context.symbols.HasType object) :
    Grants (fun _ _ => True) (r.declareConstructor node object decl span) s := by
  unfold Recur.declareConstructor
  refine Grants.step fun isNew s₁ h₁ _ => ?_
  split
  · refine Grants.step fun sig s₂ h₂ _ => Grants.step fun owner s₃ h₃ _ =>
      Grants.step fun symbol s₄ h₄ _ => ?_
    have hlater := h₁.trans (h₂.trans (h₃.trans h₄))
    exact .lift (isSecure_declareCallee (hobject.mono hlater.tables.symbols))
  · exact .pure trivial

theorem grants_declareOperator (node : Nat) (decl : OperatorDecl Node) (span : Span)
    (s : Lowering) : Grants (fun _ _ => True) (r.declareOperator node decl span) s := by
  unfold Recur.declareOperator
  refine Grants.step fun isNew s₁ _ _ => ?_
  split
  · refine Grants.step fun lhs s₂ _ _ => Grants.step fun rhs s₃ _ _ =>
      Grants.step fun lhs' s₄ _ _ => Grants.step fun rhs' s₅ _ _ =>
      Grants.step fun ret s₆ _ _ => ?_
    dsimp only
    split
    · exact .reject (Secures.report ..)
    · refine Grants.step fun symbol s₇ _ _ => ?_
      refine (grants_enterOperator _ symbol _ span s₇).bind fun entered s₈ _ _ hentered => ?_
      exact .lift (isSecure_postpone hentered)
  · exact .pure trivial

/-- The body of a callable is lowered, and the callable is found behind it. -/
theorem isSecure_define (node : Nat) (s : Lowering) : IsSecure (r.define node) s := by
  unfold Recur.define
  refine Maintains.get.bind fun a s₁ _ hs₁ hsame => ?_
  obtain ⟨rfl, rfl⟩ := hsame
  split
  · exact .pure trivial
  · rename_i pending hpending
    have hfinds := hs₁.pending hpending
    have herase : IsSecure (modifyPass fun p => { p with pending := p.pending.erase node }) a := by
      refine Secures.modifyPass rfl rfl fun hs {other p} hp => ?_
      have hp : (a.pass.pending.erase node).get? other = some p := hp
      rw [Table.get?_erase] at hp
      split at hp
      · cases hp
      · exact hs.pending hp
    refine herase.bind fun _ s₂ h₂ _ _ => ?_
    split
    · exact .pure trivial
    · refine Secures.step fun throws s₃ h₃ _ => ?_
      exact isSecure_recordThrows (hfinds.mono (h₂.trans h₃).tables)

theorem isSecure_function (node : Nat) (decl : FunctionDecl Node) (span : Span) (s : Lowering) :
    IsSecure (r.function node decl span) s := by
  unfold Recur.function
  refine Secures.step fun f s₁ _ _ => ?_
  split
  · exact Secures.report ..
  · exact (grants_declareFunction node decl span s₁).unit.bind
      fun _ s₂ _ _ _ => isSecure_define node s₂

theorem isSecure_operator (node : Nat) (decl : OperatorDecl Node) (span : Span) (s : Lowering) :
    IsSecure (r.operator node decl span) s := by
  unfold Recur.operator
  refine Secures.step fun f s₁ _ _ => ?_
  split
  · exact Secures.report ..
  · exact (grants_declareOperator node decl span s₁).unit.bind
      fun _ s₂ _ _ _ => isSecure_define node s₂

end

end SsaCompiler
