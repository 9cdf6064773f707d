/-
# Callables are entered with the functions that bear their names

What a type expression stands for is a built-in type, an object, an instance of a template, or a
pointer to such a type. Objects are found in the tables, where they can be written down, and an
instance is an object too.

A callable is declared in the module and in its table at once. Its name there is put together from
types that can be written down, so the function that the module has under this name is the one
that the entry refers to, also when the module had it before.
-/

import SsaCompiler.Proofs.Lower.Stepwise.Composed

namespace SsaCompiler

section

open Lower

variable {α β : Type} {s s' : Lowering}

/-- A type of the module that can be written down. -/
abbrev Lowering.IsSource (s : Lowering) (ty : TypeId) : Prop := s.module.types.IsSource ty

theorem gives_nameText (n : Name) (s : Lowering) :
    Gives (fun s' text => s' = s ∧ s.names.text n = .ok text) (nameText n) s where
  run h := by
    rw [nameText, bind_of_ok (get_apply s)] at h
    cases htext : s.names.text n with
    | error c =>
        rw [htext] at h
        cases h
    | ok text =>
        rw [htext] at h
        cases h
        exact ⟨.refl _, rfl, rfl⟩

theorem gives_intern (text : String) (s : Lowering) :
    Gives (fun s' n => s'.names.text n = .ok text) (intern text) s where
  run h := by
    cases h
    exact ⟨Lowering.evolves_names (s.names.grow_intern text), s.names.text_intern text⟩

/-! ### Built-in types and pointers -/

/-- A built-in type can be written down. -/
theorem PrimType.gives_lower (p : PrimType) (s : Lowering) :
    Gives Lowering.IsSource (liftM p.lower : Lower TypeId) s := by
  cases p <;>
    exact Gives.internType rfl rfl fun _ hty => TypeTable.isSource_of_atomText? hty rfl

theorem gives_pointerType {pointee : TypeId} (h : s.IsSource pointee) :
    Gives Lowering.IsSource (liftM (Build.pointerType pointee) : Lower TypeId) s :=
  Gives.internType rfl rfl fun hlater hty => (h.mono hlater.module.types).pointer hty

/-- A pointer to bytes is a pointer to characters. -/
theorem gives_bytePointer (s : Lowering) :
    Gives Lowering.IsSource (liftM bytePointer : Lower TypeId) s where
  run h := by
    obtain ⟨m, hrun, rfl⟩ := Lower.build_eq_ok_iff.1 h
    refine ⟨Lowering.evolves_module (Build.progresses hrun), ?_⟩
    obtain ⟨byte, m₁, hbyte, hptr⟩ := bind_eq_ok_iff.1 hrun
    have hsource : m₁.types.IsSource byte := by
      cases hbyte
      exact TypeTable.isSource_of_atomText? (Module.get_intern _ _) rfl
    refine (hsource.mono (Build.evolves hptr).types).pointer ?_
    cases hptr
    exact Module.get_intern _ _

/-! ### Objects -/

/-- An object of which only the type is known. -/
theorem ObjectInfo.known_new (name : Name) {ty : TypeId} {names : Names} {m : Module}
    {byType : Table TypeId Name} (hty : m.types.IsSource ty) :
    (ObjectInfo.new name ty).Known names m byType name where
  ty := hty
  methods h := by cases h
  constructors := OverloadSet.holds_empty _

/-- A new object in the table. -/
theorem Context.Known.insertObject {c : Context} {names : Names} {m : Module}
    {info : ObjectInfo} (h : c.Known names m) {name : Name}
    (hinfo : info.Known names m c.symbols.byType name) :
    { c with symbols := { c.symbols with objects := c.symbols.objects.insert name info } }.Known
      names m := by
  refine { h with objects := fun hget => ?_ }
  rw [Table.get?_insert] at hget
  split at hget
  · rename_i heq
    cases hget
    exact heq ▸ hinfo
  · exact h.objects hget

/-- Another type leads to a name. -/
theorem Context.Known.insertType {c : Context} {names : Names} {m : Module} (h : c.Known names m)
    {name : Name} {ty : TypeId} {text : String} {body : Option (List TypeId)}
    (hnew : c.symbols.byType.get? ty = none) (htext : names.text name = .ok text)
    (hty : m.types.get ty = .ok (.named text body)) :
    { c with symbols := { c.symbols with byType := c.symbols.byType.insert ty name } }.Known
      names m := by
  refine { h with objects := fun hget => ?_, structures := fun {ty' name'} hname => ?_ }
  · exact (h.objects hget).mono (Table.grow_insert hnew) (fun _ _ ht => ht) (.refl _)
  · simp only [Table.get?_insert] at hname
    split at hname
    · rename_i heq
      cases hname
      exact ⟨text, body, htext, heq ▸ hty⟩
    · exact h.structures hname

/-- A new structure has a name and no body, and no object has its type yet. -/
theorem gives_namedStruct (text : String) (hs : s.Known) :
    Gives (fun s' ty => s'.names = s.names ∧ s'.module.types.get ty = .ok (.named text none) ∧
      s'.context.symbols.byType.get? ty = none)
      (liftM (Build.namedStruct text) : Lower TypeId) s where
  run h := by
    obtain ⟨m, hrun, rfl⟩ := Lower.build_eq_ok_iff.1 h
    refine ⟨Lowering.evolves_module (Build.progresses hrun), rfl, ?_⟩
    cases hrun
    refine ⟨Checked.at_push_size _ _, ?_⟩
    cases hname : s.context.symbols.byType.get? (s.module.types.namedStruct text).1 with
    | none => rfl
    | some name =>
        -- The type of an object is one of the table already.
        obtain ⟨_, _, -, hty⟩ := hs.structures hname
        exact absurd (TypeTable.lt_size_of_get hty) (Nat.lt_irrefl _)

/-- A structure becomes a new object. -/
theorem gives_declareNew {name : Name} {ty : TypeId} {text : String}
    (htext : s.names.text name = .ok text) (hty : s.module.types.get ty = .ok (.named text none))
    (hnew : s.context.symbols.byType.get? ty = none) :
    Gives (fun s' _ => s'.IsSource ty) (modifySymbols (·.declareObject (.new name ty))) s where
  run h := by
    cases h
    have hsource : s.IsSource ty := TypeTable.isSource_of_atomText? hty rfl
    refine ⟨Lowering.evolves_context rfl (Table.grow_insert hnew) fun hs => ?_, hsource⟩
    exact (hs.insertType hnew htext hty).insertObject (ObjectInfo.known_new name hsource)

/-- A name stands for an object. -/
theorem yields_namedType (name : Name) (declaring : Bool) (span : Span) (hs : s.Known) :
    Yields Lowering.IsSource (namedType name declaring span) s := by
  unfold namedType
  have htable : Gives (fun s' table => ∀ info, SymbolTable.object? table name = some info →
      s'.IsSource info.ty) symbols s := by
    constructor
    intro table s' h
    cases h
    exact ⟨.refl _, fun info hinfo => (hs.objects hinfo).ty⟩
  refine (Yields.lift htable).bind hs fun table s₁ _ hs₁ hobjects => ?_
  split
  · rename_i info hinfo
    exact .pure (hobjects info hinfo)
  · refine (Yields.lift (gives_nameText name s₁)).bind hs₁ fun text s₂ _ hs₂ htext => ?_
    obtain ⟨rfl, htext⟩ := htext
    refine .step hs₂ fun _ s₃ h₃ hs₃ => ?_
    have htext₃ := h₃.names _ _ htext
    split
    · exact .reject hs₃
    · split
      · refine (Yields.lift (gives_namedStruct text hs₃)).bind hs₃ fun ty s₄ h₄ hs₄ hnew => ?_
        obtain ⟨-, hty, hbyType⟩ := hnew
        exact (Yields.lift (gives_declareNew (h₄.names _ _ htext₃) hty hbyType)).bind hs₄
          fun _ _ _ _ hsource => .pure hsource
      · exact .reject hs₃

/-! ### Type expressions -/

mutual

/-- What a type expression stands for can be written down. -/
theorem Recur.yields_type (r : Recur) [r.IsStepwise] (span : Span) (ty : TypeExpr)
    {s : Lowering} (hs : s.Known) : Yields Lowering.IsSource (r.type span ty) s := by
  unfold Recur.type
  split
  case h_1 p => exact .lift (p.gives_lower s)
  case h_2 => exact .lift (gives_bytePointer s)
  case h_3 => exact .lift (gives_bytePointer s)
  case h_4 ty _ =>
      exact (Recur.yields_type r span ty hs).bind hs fun _ _ _ _ hty =>
        .lift (gives_pointerType hty)
  case h_5 ty _ =>
      exact (Recur.yields_type r span ty hs).bind hs fun _ _ _ _ hty =>
        .lift (gives_pointerType hty)
  case h_6 name => exact yields_namedType name false span hs
  case h_7 name args =>
      refine (Recur.yields_types r span args hs).bind hs fun tys s₁ _ hs₁ htys => ?_
      exact ⟨IsStepwise.instantiate hs₁ htys⟩
  case h_8 elem =>
      refine (Recur.yields_type r span elem hs).bind hs fun ty s₁ _ hs₁ hty => ?_
      refine Yields.step hs₁ fun _ s₂ hlater hs₂ => ⟨IsStepwise.instantiate hs₂ fun a ha => ?_⟩
      cases List.mem_singleton.1 ha
      exact hty.mono hlater.module.types

/-- What a list of type expressions stands for can be written down. -/
theorem Recur.yields_types (r : Recur) [r.IsStepwise] (span : Span) (tys : List TypeExpr)
    {s : Lowering} (hs : s.Known) :
    Yields (fun s' ids => ∀ id ∈ ids, s'.IsSource id) (r.types span tys) s := by
  unfold Recur.types
  split
  case h_1 => exact .pure fun id hid => absurd hid List.not_mem_nil
  case h_2 ty rest =>
      refine (Recur.yields_type r span ty hs).bind hs fun id s₁ _ hs₁ hid => ?_
      refine (Recur.yields_types r span rest hs₁).bind hs₁ fun ids s₂ hlater _ hids => ?_
      refine .pure fun a ha => ?_
      rcases List.mem_cons.1 ha with rfl | ha
      · exact hid.mono hlater.module.types
      · exact hids a ha

end

instance {r : Recur} [r.IsStepwise] : r.HasParts IsStepwise where
  operand node := .part (Recur.IsStepwise.operand node)
  condition cond thenTo elseTo := .part (Recur.IsStepwise.condition cond thenTo elseTo)
  type span ty := .part ⟨fun hs h => ((r.yields_type span ty hs).run h).1⟩

end

open Lower

/-! ### Lists in which an element changes -/

section

variable {α : Type} {l : List α} {f : α → α}

/-- What holds of all elements of a list holds of them when one of them changes. -/
theorem forall_mem_modify {P : α → Prop} (h : ∀ a ∈ l, P a) (hf : ∀ a, P a → P (f a)) (i : Nat) :
    ∀ a ∈ l.modify i f, P a := by
  induction l generalizing i with
  | nil => simp
  | cons a l ih =>
      obtain ⟨ha, hl⟩ := List.forall_mem_cons.1 h
      cases i with
      | zero => exact List.forall_mem_cons.2 ⟨hf a ha, hl⟩
      | succ i => exact List.forall_mem_cons.2 ⟨ha, ih hl i⟩

theorem pairwise_modify {R : α → α → Prop} (h : l.Pairwise R)
    (hleft : ∀ a b, R a b → R (f a) b) (hright : ∀ a b, R a b → R a (f b)) (i : Nat) :
    (l.modify i f).Pairwise R := by
  induction l generalizing i with
  | nil => simp
  | cons a l ih =>
      obtain ⟨ha, hl⟩ := List.pairwise_cons.1 h
      cases i with
      | zero => exact List.pairwise_cons.2 ⟨fun b hb => hleft a b (ha b hb), hl⟩
      | succ i => exact List.pairwise_cons.2 ⟨forall_mem_modify ha (hright a) i, ih hl i⟩

end

variable {s s' : Lowering} {c : Context} {names : Names} {m : Module}

/-! ### Entries -/

namespace OverloadSet.Holds

variable {set set' : OverloadSet} {P : Overload → Prop} {o : Overload} {i : Nat}

/-- One more overload is told apart from the others. -/
theorem insert (h : set.Holds P) (ho : P o) (hinsert : set.insert o = some (i, set')) :
    set'.Holds P := by
  unfold OverloadSet.insert at hinsert
  split at hinsert
  · cases hinsert
  · rename_i hnone
    cases hinsert
    refine ⟨List.pairwise_append.2 ⟨h.apart, List.pairwise_singleton _ _, ?_⟩, fun o' ho' => ?_⟩
    · intro a ha b hb heq
      cases List.mem_singleton.1 hb
      refine hnone (List.any_eq_true.2 ⟨a, ha, ?_⟩)
      unfold sameTypes
      rw [heq, beq_self_eq_true]
    · rcases List.mem_append.1 ho' with hold | hnew
      · exact h.each o' hold
      · cases List.mem_singleton.1 hnew
        exact ho

/-- The exceptions of an overload do not matter. -/
theorem modifyThrows (h : set.Holds P) (f : FunctionId) (throws : ThrowSet)
    (hP : ∀ o, P o → P { o with throws := throws }) :
    (set.modifyByFunction f fun o => { o with throws := throws }).Holds P := by
  unfold modifyByFunction modify
  split
  · refine ⟨pairwise_modify h.apart ?_ ?_ _, forall_mem_modify h.each hP _⟩
    · exact fun _ _ hne => hne
    · exact fun _ _ hne => hne
  · exact h

end OverloadSet.Holds

/-- What has to be known of a callable before it is entered. -/
def Callee.Admits (names : Names) (m : Module) (entryPoint : String) (o : Overload) : Callee → Prop
  | function name => o.IsFunction names m entryPoint name
  | method object name => o.IsMethod names m object name
  | constructor object => o.IsConstructor m object

namespace Context.Known

/-- A change of an object that keeps what is known about it. -/
theorem modifyByType (h : c.Known names m) {ty : TypeId} {f : ObjectInfo → ObjectInfo}
    (hf : ∀ name info, c.symbols.byType.get? ty = some name →
      c.symbols.objectByType? ty = some info → info.Known names m c.symbols.byType name →
        (f info).Known names m c.symbols.byType name) :
    { c with symbols := c.symbols.modifyByType ty f }.Known names m := by
  unfold SymbolTable.modifyByType SymbolTable.modifyObject
  split
  · rename_i owner howner
    refine { h with objects := fun {name info} hget => ?_ }
    rw [Table.get?_modify] at hget
    split at hget
    · rename_i hname
      subst hname
      obtain ⟨info, hinfo, rfl⟩ := Option.map_eq_some_iff.1 hget
      refine hf name info howner ?_ (h.objects hinfo)
      simp only [SymbolTable.objectByType?, howner, Option.bind_some, hinfo]
    · exact h.objects hget
  · exact h

theorem insertFunctions (h : c.Known names m) {name : Name} {set : OverloadSet}
    (hset : set.Holds (Overload.IsFunction names m c.options.entryPoint name)) :
    { c with symbols := { c.symbols with functions := c.symbols.functions.insert name set } }.Known
      names m := by
  refine { h with functions := fun hget => ?_ }
  rw [Table.get?_insert] at hget
  split at hget
  · rename_i hname
    cases hget
    exact hname ▸ hset
  · exact h.functions hget

/-- What is known of a callable is known of all candidates after it has been added. -/
theorem declare (h : c.Known names m) {callee : Callee} {o : Overload}
    (ho : callee.Admits names m c.options.entryPoint o) :
    { c with symbols := (callee.declare c.symbols o).2 }.Known names m := by
  cases callee with
  | function name =>
      have hold : ((c.symbols.functions.get? name).getD .empty).Holds
          (Overload.IsFunction names m c.options.entryPoint name) := by
        cases hknown : c.symbols.functions.get? name with
        | none => exact OverloadSet.holds_empty _
        | some known => exact h.functions hknown
      cases hinsert : ((c.symbols.functions.get? name).getD .empty).insert o with
      | none =>
          simp only [Callee.declare, SymbolTable.declareFunction, hinsert]
          exact h
      | some p =>
          simp only [Callee.declare, SymbolTable.declareFunction, hinsert]
          exact h.insertFunctions (hold.insert ho hinsert)
  | method object name =>
      cases hinfo : c.symbols.objectByType? object with
      | none =>
          simp only [Callee.declare, SymbolTable.declareMethod, hinfo]
          exact h
      | some info =>
          cases hinsert : (info.methodSet name).insert o with
          | none =>
              simp only [Callee.declare, SymbolTable.declareMethod, hinfo, hinsert]
              exact h
          | some p =>
              simp only [Callee.declare, SymbolTable.declareMethod, hinfo, hinsert]
              refine h.modifyByType fun owner info' howner hinfo' hknown => ?_
              cases hinfo.symm.trans hinfo'
              refine { hknown with methods := fun {name'} _ hget => ?_ }
              rw [Table.get?_insert] at hget
              split at hget
              · rename_i hname
                cases hget
                subst hname
                have hold : (info.methodSet name').Holds fun o => ∃ ty,
                    c.symbols.byType.get? ty = some owner ∧ o.IsMethod names m ty name' := by
                  unfold ObjectInfo.methodSet
                  cases hset : info.methods.get? name' with
                  | none => exact OverloadSet.holds_empty _
                  | some known => exact hknown.methods hset
                exact hold.insert ⟨object, howner, ho⟩ hinsert
              · exact hknown.methods hget
  | constructor object =>
      cases hinfo : c.symbols.objectByType? object with
      | none =>
          simp only [Callee.declare, SymbolTable.declareConstructor, hinfo]
          exact h
      | some info =>
          cases hinsert : info.constructors.insert o with
          | none =>
              simp only [Callee.declare, SymbolTable.declareConstructor, hinfo, hinsert]
              exact h
          | some p =>
              simp only [Callee.declare, SymbolTable.declareConstructor, hinfo, hinsert]
              refine h.modifyByType fun owner info' howner hinfo' hknown => ?_
              cases hinfo.symm.trans hinfo'
              exact { hknown with
                constructors := hknown.constructors.insert ⟨object, howner, ho⟩ hinsert }

end Context.Known

/-- Declaring a callable leaves the types of objects alone. -/
theorem Callee.byType_declare (t : SymbolTable) (o : Overload) (callee : Callee) :
    (callee.declare t o).2.byType = t.byType := by
  cases callee with
  | function name =>
      simp only [declare, SymbolTable.declareFunction]
      split <;> rfl
  | method object name =>
      simp only [declare, SymbolTable.declareMethod]
      repeat' split
      · rfl
      · exact t.byType_modifyByType object _
      · rfl
  | constructor object =>
      simp only [declare, SymbolTable.declareConstructor]
      repeat' split
      · rfl
      · exact t.byType_modifyByType object _
      · rfl

theorem Callee.byType_modify (t : SymbolTable) (f : OverloadSet → OverloadSet) (callee : Callee) :
    (callee.modify t f).byType = t.byType := by
  cases callee with
  | function name => rfl
  | method object name => exact t.byType_modifyByType object _
  | constructor object => exact t.byType_modifyByType object _

/-! ### Exceptions of callables -/

/-- Whatever is known of the candidates is known when the exceptions of one of them change. -/
theorem Context.Known.modifyThrows (h : c.Known names m) (callee : Callee) (f : FunctionId)
    (throws : ThrowSet) :
    { c with
      symbols := callee.modify c.symbols fun set =>
        set.modifyByFunction f fun o => { o with throws := throws } }.Known names m := by
  cases callee with
  | function name =>
      refine { h with functions := fun {name'} _ hget => ?_ }
      simp only [Callee.modify, SymbolTable.modifyFunctions, Table.get?_modify] at hget
      split at hget
      · rename_i hname
        subst hname
        obtain ⟨set, hset, rfl⟩ := Option.map_eq_some_iff.1 hget
        exact (h.functions hset).modifyThrows f throws fun _ ho => ho
      · exact h.functions hget
  | method object name =>
      refine h.modifyByType fun owner info _ _ hknown => { hknown with
        methods := fun {name'} _ hget => ?_ }
      rw [Table.get?_modify] at hget
      split at hget
      · rename_i hname
        subst hname
        obtain ⟨set, hset, rfl⟩ := Option.map_eq_some_iff.1 hget
        exact (hknown.methods hset).modifyThrows f throws fun _ ho => ho
      · exact hknown.methods hget
  | constructor object =>
      exact h.modifyByType fun owner info _ _ hknown => { hknown with
        constructors := hknown.constructors.modifyThrows f throws fun _ ho => ho }

/-- Whatever is known of the operators is known when the exceptions of one of them change. -/
theorem Context.Known.modifyOperatorThrows (h : c.Known names m) (index : Nat) (throws : ThrowSet) :
    { c with operators := c.operators.modify index fun e => { e with throws := throws } }.Known
      names m := by
  have hentry (entry : OperatorKey × OperatorEntry) (hold : entry.2.Known m entry.1) :
      ({ entry.2 with throws := throws } : OperatorEntry).Known m entry.1 :=
    ⟨hold.operands, hold.function⟩
  have hkeys := h.keys.modify index fun e => { e with throws := throws }
  exact { h with operators := forall_mem_modify h.operators hentry index, keys := hkeys }

instance (pending : PendingCallable) (throws : ThrowSet) :
    Stepwise (recordThrows pending throws) := by
  have hoverload (callee : Callee) : Stepwise (modifySymbols
      (callee.modify · (·.modifyByFunction pending.function fun o => { o with throws := throws }))) := by
    constructor
    intro s a s' _ h
    cases h
    refine Lowering.evolves_context rfl ?_ fun hs => hs.modifyThrows callee pending.function throws
    exact callee.byType_modify s.context.symbols _ ▸ Table.Grow.refl _
  have hoperator (index : Nat) : Stepwise (modifyContext fun c => { c with
      operators := c.operators.modify index fun e => { e with throws := throws } }) := by
    constructor
    intro s a s' _ h
    cases h
    exact Lowering.evolves_context rfl (.refl _) fun hs => hs.modifyOperatorThrows index throws
  unfold recordThrows
  split
  · refine .bind fun _ => ?_
    split <;> infer_instance
  · refine .bind fun _ => ?_
    split <;> infer_instance

instance (node : Nat) (pending : PendingCallable) : Stepwise (postpone node pending) :=
  inferInstanceAs (Stepwise (modifyPass _))

/-! ### Names in the module -/

theorem gives_describe {ty : TypeId} (hty : s.IsSource ty) :
    Gives (fun s' text => s' = s ∧ s.module.types.Spells ty text) (describe ty) s where
  run h := by
    rw [describe, bind_of_ok (get_apply s)] at h
    cases htext : s.module.types.describe ty with
    | error c =>
        rw [htext] at h
        cases h
    | ok text =>
        rw [htext] at h
        cases h
        exact ⟨.refl _, rfl, hty.spells htext⟩

/-- The name in the module of a callable. -/
theorem gives_mangle {base : String} {params : List ParamSig}
    (hparams : ∀ p ∈ params, s.IsSource p.ty) :
    Gives (fun s' symbol => s' = s ∧ ∃ text, s.module.types.SpellsParams params text ∧
      symbol = base ++ text) (mangle base params) s where
  run h := by
    rw [mangle, bind_of_ok (get_apply s)] at h
    cases htext : s.module.types.describeParams params with
    | error c =>
        rw [htext] at h
        cases h
    | ok text =>
        rw [htext] at h
        cases h
        exact ⟨.refl _, rfl, text, TypeTable.spellsParams_of_describeParams hparams htext, rfl⟩

/-! ### Declarations -/

/-- A function that the module is asked for. -/
theorem gives_declareFunction (symbol : String) (ty : TypeId) (s : Lowering) :
    Gives (fun s' f => s'.names = s.names ∧ s'.context = s.context ∧
      s'.module.functionByName? symbol = some f)
      (liftM (Build.declareFunction symbol ty) : Lower FunctionId) s where
  run h := by
    obtain ⟨m, hrun, rfl⟩ := Lower.build_eq_ok_iff.1 h
    exact ⟨Lowering.evolves_module (Build.progresses hrun), rfl, rfl,
      Build.functionByName?_of_declareFunction hrun⟩

/-- A callable is entered once the function that bears its name is there. -/
theorem proceeds_declareCallee {node : Nat} {callee : Callee} {symbol : String} {sig : CallableSig}
    {thisTy : Option TypeId} {body : Option Node} {span : Span} (hs : s.Known)
    (hentry : ∀ s' f, s.Evolves s' → s'.module.functionByName? symbol = some f →
      callee.Admits s'.names s'.module s'.context.options.entryPoint
        ⟨symbol, sig.params, sig.ret, sig.retRef, f, []⟩) :
    Proceeds (declareCallee node callee symbol sig thisTy body span) s := by
  unfold declareCallee
  refine Gives.step hs fun fnTy s₁ h₁ hs₁ => ?_
  refine (gives_declareFunction symbol fnTy s₁).bind hs₁ fun f s₂ h₂ hs₂ hf => ?_
  refine (gives_symbols s₂).bind hs₂ fun table s₃ h₃ hs₃ hsame => ?_
  obtain ⟨rfl, rfl⟩ := hsame
  dsimp only
  have henter : Proceeds (modifySymbols fun _ =>
      (callee.declare s₃.context.symbols ⟨symbol, sig.params, sig.ret, sig.retRef, f, []⟩).2) s₃ := by
    constructor
    intro a s' h
    cases h
    refine ⟨Lowering.evolves_context rfl ?_ fun hs =>
      hs.declare (hentry s₃ f (h₁.trans h₂) hf.2.2), trivial⟩
    exact callee.byType_declare s₃.context.symbols _ ▸ Table.Grow.refl _
  refine henter.bind hs₃ fun _ s₄ _ hs₄ _ => ?_
  split
  · exact .of_stepwise hs₄
  · exact .of_stepwise hs₄
  · exact .of_stepwise hs₄
  · exact .of_stepwise hs₄

/-- A new operator in the table. -/
theorem Context.Known.insertOperator (h : c.Known names m) {key : OperatorKey} {e : OperatorEntry}
    {index : Nat} {table : OperatorTable} (hinsert : c.operators.insert key e = some (index, table))
    (he : e.Known m key) : { c with operators := table }.Known names m := by
  have hkeys := h.keys.insert hinsert
  unfold OperatorTable.insert at hinsert
  split at hinsert
  · cases hinsert
  · cases hinsert
    refine { h with operators := fun entry hentry => ?_, keys := hkeys }
    rcases List.mem_append.1 hentry with hold | hnew
    · exact h.operators entry hold
    · cases List.mem_singleton.1 hnew
      exact he

/-- An operator is entered once the function that bears its name is there. -/
theorem proceeds_enterOperator {key : OperatorKey} {symbol : String} {sig : CallableSig}
    {span : Span} (hs : s.Known)
    (hentry : ∀ s' f, s.Evolves s' → s'.module.functionByName? symbol = some f →
      OperatorEntry.Known s'.module key ⟨f, sig.params, sig.ret, sig.retRef, []⟩) :
    Yields (fun _ _ => True) (enterOperator key symbol sig span) s := by
  unfold enterOperator
  refine Yields.step hs fun fnTy s₁ h₁ hs₁ => ?_
  refine (Yields.lift (gives_declareFunction symbol fnTy s₁)).bind hs₁ fun f s₂ h₂ hs₂ hf => ?_
  refine (Yields.lift (gives_get s₂)).bind hs₂ fun a s₃ h₃ hs₃ hsame => ?_
  obtain ⟨rfl, rfl⟩ := hsame
  split
  · rename_i index table hinsert
    have henter : Proceeds (modifyContext fun c => { c with operators := table }) a := by
      constructor
      intro b s' h
      cases h
      exact ⟨Lowering.evolves_context rfl (.refl _) fun hs =>
        hs.insertOperator hinsert (hentry a f (h₁.trans h₂) hf.2.2), trivial⟩
    exact (Yields.lift henter).bind hs₃ fun _ _ _ _ _ => .pure trivial
  · exact .reject hs₃

section

variable {r : Recur} [r.IsStepwise]

/-- The type of a parameter can be written down. -/
theorem yields_paramSig (ty : TypeExpr) (span : Span) (hs : s.Known) :
    Yields (fun s' p => s'.IsSource p.ty) (r.paramSig ty span) s := by
  unfold Recur.paramSig
  refine (r.yields_type span _ hs).bind hs fun id s₁ _ hs₁ hid => ?_
  refine Yields.step hs₁ fun kind s₂ h₂ hs₂ => ?_
  have hid₂ : s₂.IsSource id := hid.mono h₂.module.types
  split
  · exact Yields.step hs₂ fun _ s₃ h₃ _ => .pure (hid₂.mono h₃.module.types)
  · exact .pure hid₂

theorem gives_paramSigs (span : Span) (fields : List Field) {s : Lowering} (hs : s.Known) :
    Gives (fun s' o => ∀ ps ∈ o, ∀ p ∈ ps, s'.IsSource p.ty) (r.paramSigs span fields) s := by
  induction fields generalizing s with
  | nil =>
      unfold Recur.paramSigs
      refine .pure fun ps hps p hp => ?_
      cases hps
      cases hp
  | cons field rest ih =>
      unfold Recur.paramSigs
      refine (yields_paramSig field.ty span hs).gives.bind hs fun first s₁ _ hs₁ hfirst => ?_
      refine (ih hs₁).bind hs₁ fun others s₂ h₂ _ hothers => .pure fun ps hps p hp => ?_
      cases first with
      | none => cases hps
      | some q =>
          cases others with
          | none => cases hps
          | some qs =>
              cases hps
              rcases List.mem_cons.1 hp with rfl | hp
              · exact (hfirst p rfl).mono h₂.module.types
              · exact hothers qs rfl p hp

theorem yields_signature (params : List Field) (ret : TypeExpr) (span : Span) (hs : s.Known) :
    Yields (fun s' sig => ∀ p ∈ sig.params, s'.IsSource p.ty) (r.signature params ret span) s := by
  unfold Recur.signature
  refine (Yields.lift (gives_paramSigs span params hs)).bind hs fun sigs s₁ _ hs₁ hsigs => ?_
  refine Yields.step hs₁ fun retTy s₂ h₂ hs₂ => ?_
  have hsome : Yields (fun s' ps => ∀ p ∈ ps, s'.IsSource p.ty) (Attempt.ofOption sigs) s₂ := by
    constructor
    intro o s' h
    cases h
    exact ⟨.refl _, fun ps hps p hp => (hsigs ps hps p hp).mono h₂.module.types⟩
  exact hsome.bind hs₂ fun ps s₃ _ _ hps => .pure hps

/-- A function is entered under its name. -/
theorem proceeds_declareFunction (node : Nat) (decl : FunctionDecl Node) (span : Span)
    (hs : s.Known) : Yields (fun _ _ => True) (r.declareFunction node decl span) s := by
  unfold Recur.declareFunction
  refine Yields.step hs fun fresh s₁ _ hs₁ => ?_
  split
  · refine (yields_signature decl.params decl.ret span hs₁).bind hs₁ fun sig s₂ _ hs₂ hsig => ?_
    refine (Yields.lift (gives_nameText decl.name s₂)).bind hs₂ fun text s₃ _ hs₃ htext => ?_
    obtain ⟨rfl, htext⟩ := htext
    refine (Yields.lift (gives_get s₃)).bind hs₃ fun a s₄ _ hs₄ hsame => ?_
    obtain ⟨rfl, rfl⟩ := hsame
    dsimp only
    -- The name is that of the entry point, or it tells the parameters.
    split
    · rename_i hentry
      obtain ⟨hname, hparams⟩ := Bool.and_eq_true_iff.1 hentry
      have hpure : Yields (fun s' symbol => s' = a ∧ symbol = text) (pure text : Attempt String) a :=
        .pure ⟨rfl, rfl⟩
      refine hpure.bind hs₄ fun symbol s₅ _ hs₅ hsymbol => ?_
      obtain ⟨rfl, rfl⟩ := hsymbol
      refine .lift (proceeds_declareCallee hs₅ fun s' f hlater hf => ?_)
      refine ⟨symbol, hlater.names _ _ htext, symbol, ?_, hf⟩
      rw [hlater.options, Callable.ofFunction,
        if_pos ⟨beq_iff_eq.1 hname, List.isEmpty_iff.1 hparams⟩]
      exact .plain symbol
    · rename_i hentry
      refine (Yields.lift (gives_mangle hsig)).bind hs₄ fun symbol s₅ _ hs₅ hsymbol => ?_
      obtain ⟨rfl, params, hparams, rfl⟩ := hsymbol
      refine .lift (proceeds_declareCallee hs₅ fun s' f hlater hf => ?_)
      refine ⟨text, hlater.names _ _ htext, _, ?_, hf⟩
      rw [hlater.options, Callable.ofFunction, if_neg fun hentry' => hentry ?_]
      · exact .function (hparams.mono hlater.module.types)
      · exact Bool.and_eq_true_iff.2 ⟨beq_iff_eq.2 hentry'.1, List.isEmpty_iff.2 hentry'.2⟩
  · exact .pure trivial

/-- A method is entered under its name, of whatever object it is. -/
theorem proceeds_declareMethod (node : Nat) {object : TypeId} (decl : FunctionDecl Node)
    (span : Span) (hs : s.Known) (hobject : s.IsSource object) :
    Yields (fun _ _ => True) (r.declareMethod node object decl span) s := by
  unfold Recur.declareMethod
  refine Yields.step hs fun fresh s₁ h₁ hs₁ => ?_
  split
  · refine (yields_signature decl.params decl.ret span hs₁).bind hs₁ fun sig s₂ h₂ hs₂ hsig => ?_
    have hobject₂ : s₂.IsSource object := hobject.mono (h₁.trans h₂).module.types
    refine (Yields.lift (gives_describe hobject₂)).bind hs₂ fun owner s₃ _ hs₃ howner => ?_
    obtain ⟨rfl, howner⟩ := howner
    refine (Yields.lift (gives_nameText decl.name s₃)).bind hs₃ fun text s₄ _ hs₄ htext => ?_
    obtain ⟨rfl, htext⟩ := htext
    refine (Yields.lift (gives_mangle hsig)).bind hs₄ fun symbol s₅ _ hs₅ hsymbol => ?_
    obtain ⟨rfl, params, hparams, rfl⟩ := hsymbol
    refine .lift (proceeds_declareCallee hs₅ fun s' f hlater hf => ?_)
    refine ⟨text, hlater.names _ _ htext, _, .method (howner.mono hlater.module.types)
      (hparams.mono hlater.module.types), ?_⟩
    exact hf
  · exact .pure trivial

/-- A constructor is entered, of whatever object it is. -/
theorem proceeds_declareConstructor (node : Nat) {object : TypeId} (decl : ConstructorDecl Node)
    (span : Span) (hs : s.Known) (hobject : s.IsSource object) :
    Yields (fun _ _ => True) (r.declareConstructor node object decl span) s := by
  unfold Recur.declareConstructor
  refine Yields.step hs fun fresh s₁ h₁ hs₁ => ?_
  split
  · refine (yields_signature decl.params _ span hs₁).bind hs₁ fun sig s₂ h₂ hs₂ hsig => ?_
    have hobject₂ : s₂.IsSource object := hobject.mono (h₁.trans h₂).module.types
    refine (Yields.lift (gives_describe hobject₂)).bind hs₂ fun owner s₃ _ hs₃ howner => ?_
    obtain ⟨rfl, howner⟩ := howner
    refine (Yields.lift (gives_mangle hsig)).bind hs₃ fun symbol s₄ _ hs₄ hsymbol => ?_
    obtain ⟨rfl, params, hparams, rfl⟩ := hsymbol
    refine .lift (proceeds_declareCallee hs₄ fun s' f hlater hf => ?_)
    refine ⟨_, .constructor (howner.mono hlater.module.types)
      (hparams.mono hlater.module.types), ?_⟩
    exact hf
  · exact .pure trivial

/-- The type of an operand can be written down. -/
theorem yields_operandSig (field : Option Field) (span : Span) (hs : s.Known) :
    Yields (fun s' o => ∀ p ∈ o, s'.IsSource p.ty) (r.operandSig field span) s := by
  unfold Recur.operandSig
  cases field with
  | none => exact .pure fun p hp => by cases hp
  | some f =>
      refine (yields_paramSig f.ty span hs).bind hs fun p s₁ _ _ hp => .pure fun q hq => ?_
      cases hq
      exact hp

/-- What is looked up is there or not. -/
theorem yields_ofOption {α : Type} {P : Lowering → α → Prop} {o : Option α}
    (h : ∀ a ∈ o, P s a) : Yields P (Attempt.ofOption o) s where
  run hrun := by
    cases hrun
    exact ⟨.refl _, h⟩

/-- The key of an operator has its symbol. -/
theorem symbol_of_operatorKey? {symbol : OpSymbol} {lhs rhs : Option TypeId} {ret : TypeId}
    {key : OperatorKey} (h : operatorKey? symbol lhs rhs ret = some key) : key.symbol = symbol := by
  unfold operatorKey? at h
  split at h <;> cases h <;> rfl

/-- An operator is entered under its symbol and its operands. -/
theorem proceeds_declareOperator (node : Nat) (decl : OperatorDecl Node) (span : Span)
    (hs : s.Known) : Yields (fun _ _ => True) (r.declareOperator node decl span) s := by
  unfold Recur.declareOperator
  refine Yields.step hs fun fresh s₁ _ hs₁ => ?_
  split
  · refine (Yields.lift (yields_operandSig decl.lhs span hs₁).gives).bind hs₁ fun ol s₂ _ hs₂ hol => ?_
    refine (Yields.lift (yields_operandSig decl.rhs span hs₂).gives).bind hs₂ fun or s₃ h₃ hs₃ hor => ?_
    let P : Lowering → Option ParamSig → Prop := fun s' o => ∀ p ∈ o, s'.IsSource p.ty
    refine (yields_ofOption (P := P) fun o ho p hp =>
      (hol o ho p hp).mono h₃.module.types).bind hs₃ fun lhs s₄ h₄ hs₄ hlhs => ?_
    refine (yields_ofOption (P := P) fun o ho p hp =>
      (hor o ho p hp).mono h₄.module.types).bind hs₄ fun rhs s₅ h₅ hs₅ hrhs => ?_
    refine Yields.step hs₅ fun ret s₆ h₆ hs₆ => ?_
    dsimp only
    have hsig : ∀ p ∈ lhs.toList ++ rhs.toList, s₆.IsSource p.ty := by
      intro p hp
      rcases List.mem_append.1 hp with hp | hp
      · exact (hlhs p (Option.mem_toList.1 hp)).mono (h₅.trans h₆).module.types
      · exact (hrhs p (Option.mem_toList.1 hp)).mono h₆.module.types
    split
    · exact .reject hs₆
    · rename_i key hkey
      refine (Yields.lift (gives_mangle hsig)).bind hs₆ fun symbol s₇ _ hs₇ hsymbol => ?_
      obtain ⟨rfl, params, hparams, rfl⟩ := hsymbol
      have hname := symbol_of_operatorKey? hkey
      refine (proceeds_enterOperator hs₇ fun s' f hlater hf => ⟨⟨lhs, rhs, rfl, ?_⟩, ?_⟩).bind hs₇
        fun entered s₈ _ hs₈ _ => ?_
      · rw [hname]
        exact hkey
      · rw [hname]
        exact ⟨_, .operator (hparams.mono hlater.module.types), hf⟩
      · exact .lift (.of_stepwise hs₈)
  · exact .pure trivial

instance (node : Nat) (decl : FunctionDecl Node) (span : Span) :
    Stepwise (r.declareFunction node decl span).run where
  later hs h := ((proceeds_declareFunction node decl span hs).run h).1

instance (node : Nat) (decl : OperatorDecl Node) (span : Span) :
    Stepwise (r.declareOperator node decl span).run where
  later hs h := ((proceeds_declareOperator node decl span hs).run h).1

end

/-! ### Bodies -/

section

variable {r : Recur} [r.IsStepwise]

instance (node : Nat) : Stepwise (r.define node) := by
  unfold Recur.define
  refine .bind fun _ => ?_
  split
  · infer_instance
  · refine .bind fun _ => ?_
    split <;> infer_instance

instance (node : Nat) (decl : FunctionDecl Node) (span : Span) :
    Stepwise (r.function node decl span) := by
  unfold Recur.function
  refine .bind fun _ => ?_
  split <;> infer_instance

instance (node : Nat) (decl : OperatorDecl Node) (span : Span) :
    Stepwise (r.operator node decl span) := by
  unfold Recur.operator
  refine .bind fun _ => ?_
  split <;> infer_instance

end

end SsaCompiler
