/-
# Objects and instances of templates go to later states

A structure gets its body in two places only, from the declaration of an object and from the
built-in array, and neither makes it a field of itself. An object is not looked up by its type
while a placeholder hides it, and what a placeholder hides is brought back as it was.
-/

import SsaCompiler.Proofs.Lower.Stepwise.Callable

namespace SsaCompiler

open Lower

variable {s s' : Lowering} {c : Context} {names : Names} {m : Module} {r : Recur}

/-! ### Members -/

/-- An object gets its members unless it is one of them. -/
theorem proceeds_completeObject {ty : TypeId} {members : List (Name × TypeId)} (hs : s.Known)
    (hself : ∀ name, s.module.types.get ty = .ok (.named name none) → ty ∉ members.map Prod.snd)
    (hmembers : ∀ e ∈ members, s.module.types.Has e.2) :
    Proceeds (completeObject ty members) s := by
  have hbody : Proceeds (liftM (Build.setStructBody ty (members.map Prod.snd)) : Lower Bool) s := by
    constructor
    intro done s' h
    obtain ⟨m, hrun, rfl⟩ := Lower.build_eq_ok_iff.1 h
    refine ⟨Lowering.evolves_module (Build.setStructBody_progresses hrun hself fun f hf => ?_), trivial⟩
    obtain ⟨e, he, rfl⟩ := List.mem_map.1 hf
    exact hmembers e he
  have hentry : Stepwise (modifySymbols (·.modifyByType ty fun info =>
      { info with members := members, complete := true })) := by
    constructor
    intro s a s' _ h
    cases h
    refine Lowering.evolves_context rfl ?_ fun hs => hs.modifyByType fun _ info _ _ hinfo => ?_
    · exact SymbolTable.byType_modifyByType s.context.symbols ty _ ▸ Table.Grow.refl _
    · exact ⟨hinfo.ty, hinfo.methods, hinfo.constructors⟩
  unfold completeObject
  refine hbody.bind hs fun _ s₁ _ hs₁ _ => Gives.step hs₁ fun table s₂ _ hs₂ => ?_
  split
  · exact .of_stepwise hs₂
  · exact .of_stepwise hs₂

section

variable [r.IsStepwise]

/-- A member has a type that can be written down, and another one than its object. -/
theorem yields_memberType (owner : TypeId) (known : List (Name × TypeId)) (field : Field)
    (span : Span) (hs : s.Known) :
    Yields (fun s' ty => s'.IsSource ty ∧ ty ≠ owner) (r.memberType owner known field span) s := by
  unfold Recur.memberType
  refine (r.yields_type span field.ty hs).bind hs fun ty s₁ _ hs₁ hty => ?_
  refine Yields.step hs₁ fun name s₂ h₂ hs₂ => ?_
  split
  · exact Yields.step hs₂ fun _ s₃ _ hs₃ => .reject hs₃
  · rename_i hne
    split
    · exact .reject hs₂
    · exact .pure ⟨hty.mono h₂.module.types, hne⟩

theorem gives_memberTypes (owner : TypeId) (span : Span) (known : List (Name × TypeId))
    (fields : List Field) {s : Lowering} (hs : s.Known)
    (hknown : ∀ e ∈ known, s.IsSource e.2 ∧ e.2 ≠ owner) :
    Gives (fun s' members => ∀ e ∈ members, s'.IsSource e.2 ∧ e.2 ≠ owner)
      (r.memberTypes owner span known fields) s := by
  induction fields generalizing known s with
  | nil =>
      unfold Recur.memberTypes
      exact .pure hknown
  | cons field rest ih =>
      unfold Recur.memberTypes
      refine (yields_memberType owner known field span hs).gives.bind hs fun oty s₁ h₁ hs₁ hoty => ?_
      have hknown₁ : ∀ e ∈ known, s₁.IsSource e.2 ∧ e.2 ≠ owner := fun e he =>
        ⟨(hknown e he).1.mono h₁.module.types, (hknown e he).2⟩
      cases oty with
      | none => exact ih known hs₁ hknown₁
      | some ty =>
          refine ih _ hs₁ fun e he => ?_
          rcases List.mem_append.1 he with he | he
          · exact hknown₁ e he
          · cases List.mem_singleton.1 he
            exact hoty ty rfl

/-- An object gets the members of its declaration. -/
theorem proceeds_layout (ty : TypeId) (members : List Field) (span : Span) (hs : s.Known) :
    Proceeds (r.layout ty members span) s := by
  unfold Recur.layout
  refine (gives_memberTypes ty span [] members hs (by simp)).bind hs fun known s₁ _ hs₁ hknown => ?_
  refine proceeds_completeObject hs₁ (fun name _ hmem => ?_) fun e he => (hknown e he).1.has
  obtain ⟨e, he, heq⟩ := List.mem_map.1 hmem
  exact (hknown e he).2 heq

/-! ### Methods -/

/-- What stands in the body of an object is declared. -/
theorem proceeds_declareMember {object : TypeId} (node : Node) (hs : s.Known)
    (hobject : s.IsSource object) : Proceeds (r.declareMember object node) s := by
  unfold Recur.declareMember
  split
  · exact (proceeds_declareMethod node.id _ node.span hs hobject).gives.discard
  · exact (proceeds_declareConstructor node.id _ node.span hs hobject).gives.discard
  · exact .of_stepwise hs
  · exact .of_stepwise hs

/-- Everything in the body of an object is declared. -/
theorem proceeds_declareMembers {object : TypeId} (nodes : List (Option Node)) {s : Lowering}
    (hs : s.Known) (hobject : s.IsSource object) :
    Proceeds (r.declareMembers object nodes) s := by
  induction nodes generalizing s with
  | nil => exact .pure trivial
  | cons node rest ih =>
      cases node with
      | none => exact ⟨fun h => by cases h⟩
      | some node =>
          unfold Recur.declareMembers
          exact (proceeds_declareMember node hs hobject).bind hs fun _ s₁ h₁ hs₁ _ =>
            ih hs₁ (hobject.mono h₁.module.types)

instance (methods : List (Option Node)) : Stepwise (r.defineMembers methods) := by
  induction methods with
  | nil =>
      unfold Recur.defineMembers
      infer_instance
  | cons method rest ih =>
      unfold Recur.defineMembers
      refine .bind fun _ => ?_
      split
      · infer_instance
      · cases method <;> infer_instance

/-- An object is declared with its members and its methods. -/
theorem proceeds_declareObject (node : Nat) (decl : ObjectDecl Node) (span : Span) (hs : s.Known) :
    Yields (fun _ _ => True) (r.declareObject node decl span) s := by
  unfold Recur.declareObject
  refine Yields.step hs fun fresh s₁ _ hs₁ => ?_
  split
  · refine (yields_namedType decl.name true span hs₁).bind hs₁ fun ty s₂ _ hs₂ hty => ?_
    refine Yields.step hs₂ fun table s₃ h₃ hs₃ => ?_
    dsimp only
    have hrest : ∀ {s₄ : Lowering}, s₃.Evolves s₄ → s₄.Known →
        Yields (fun _ _ => True) (do
          r.layout ty decl.members span
          r.declareMembers ty decl.methods : Attempt Unit) s₄ := by
      intro s₄ h₄ hs₄
      refine (Yields.lift (proceeds_layout ty decl.members span hs₄)).bind hs₄
        fun _ s₅ h₅ hs₅ _ => .lift (proceeds_declareMembers decl.methods hs₅ ?_)
      exact hty.mono ((h₃.trans h₄).trans h₅).module.types
    split
    · split
      · refine Yields.step hs₃ fun text s₄ h₄ hs₄ => ?_
        exact Yields.step hs₄ fun _ s₅ h₅ hs₅ => hrest (h₄.trans h₅) hs₅
      · exact hrest (.refl _) hs₃
    · exact hrest (.refl _) hs₃
  · exact .pure trivial

instance (node : Nat) (decl : ObjectDecl Node) (span : Span) :
    Stepwise (r.declareObject node decl span).run where
  later hs h := ((proceeds_declareObject node decl span hs).run h).1

instance (node : Nat) (decl : ObjectDecl Node) (span : Span) : Stepwise (r.object node decl span) := by
  unfold Recur.object
  refine .bind fun _ => ?_
  split <;> infer_instance

end

/-! ### The dynamic array -/

namespace DynamicArray

/-- An operator of an array type is entered under its symbol and its operands. -/
theorem proceeds_declareOperator {key : OperatorKey} {params : List ParamSig} {ret : TypeId}
    {retRef : Bool} (lhs rhs : Option ParamSig) (hs : s.Known)
    (hparams : ∀ p ∈ params, s.IsSource p.ty) (hsides : params = lhs.toList ++ rhs.toList)
    (hkey : operatorKey? key.symbol (lhs.map (·.ty)) (rhs.map (·.ty)) ret = some key) :
    Yields (fun _ _ => True) (DynamicArray.declareOperator key params ret retRef) s := by
  unfold DynamicArray.declareOperator
  refine (Yields.lift (gives_mangle hparams)).bind hs fun symbol s₁ _ hs₁ hsymbol => ?_
  obtain ⟨rfl, text, htext, rfl⟩ := hsymbol
  refine (proceeds_enterOperator hs₁ fun s' f hlater hf => ⟨⟨lhs, rhs, hsides, hkey⟩, ?_⟩).bind hs₁
    fun entered s₂ _ _ _ => .pure trivial
  exact ⟨_, .operator (htext.mono hlater.module.types), hf⟩

/-- The operator for indexing is entered and gets its code. -/
theorem proceeds_buildIndex {ty : TypeId} (elem : TypeId) (hs : s.Known) (hty : s.IsSource ty) :
    Yields (fun _ _ => True) (buildIndex ty elem) s := by
  unfold buildIndex
  have hlong : Gives Lowering.IsSource (liftM (Build.intType 64) : Lower TypeId) s :=
    .internType rfl rfl fun _ h => TypeTable.isSource_of_atomText? h rfl
  refine (Yields.lift hlong).bind hs fun long s₁ h₁ hs₁ hlong => ?_
  have hparams : ∀ p ∈ [ParamSig.reference ty, .value long], s₁.IsSource p.ty := by
    intro p hp
    rcases List.mem_pair.1 hp with rfl | rfl
    · exact hty.mono h₁.module.types
    · exact hlong
  refine (proceeds_declareOperator (some (.reference ty)) (some (.value long)) hs₁
    hparams rfl rfl).bind hs₁ fun f s₂ _ hs₂ _ => ?_
  exact .lift (.of_stepwise hs₂)

/-- The operator that adds an element is entered and gets its code. -/
theorem proceeds_buildAppend {ty elem : TypeId} (hs : s.Known) (hty : s.IsSource ty)
    (helem : s.IsSource elem) : Yields (fun _ _ => True) (buildAppend ty elem) s := by
  unfold buildAppend
  have hparams : ∀ p ∈ [ParamSig.reference ty, .value elem], s.IsSource p.ty := by
    intro p hp
    rcases List.mem_pair.1 hp with rfl | rfl
    · exact hty
    · exact helem
  refine (proceeds_declareOperator (some (.reference ty)) (some (.value elem)) hs
    hparams rfl rfl).bind hs fun f s₁ _ hs₁ _ => ?_
  exact .lift (.of_stepwise hs₁)

/-- The operator for deletion is entered and gets its code. -/
theorem proceeds_buildDelete {ty : TypeId} (hs : s.Known) (hty : s.IsSource ty) :
    Yields (fun _ _ => True) (buildDelete ty) s := by
  unfold buildDelete
  refine Yields.step hs fun void s₁ h₁ hs₁ => ?_
  have hparams : ∀ p ∈ [ParamSig.reference ty], s₁.IsSource p.ty := by
    intro p hp
    cases List.mem_singleton.1 hp
    exact hty.mono h₁.module.types
  refine (proceeds_declareOperator (some (.reference ty)) none hs₁
    hparams rfl rfl).bind hs₁ fun f s₂ _ hs₂ _ => ?_
  exact .lift (.of_stepwise hs₂)

/-- The members of an array are a pointer and two numbers, and an array is neither. -/
theorem proceeds_build {ty elem : TypeId} (hs : s.Known) (hty : s.IsSource ty)
    (helem : s.IsSource elem) : Proceeds (build ty elem) s := by
  unfold build
  refine Gives.step hs fun kind s₁ h₁ hs₁ => ?_
  split
  · exact .of_stepwise hs₁
  · have hptr : Gives (fun s' id => s'.module.types.get id = .ok (.pointer elem))
        (liftM (Build.pointerType elem) : Lower TypeId) s₁ := .internType rfl rfl fun _ h => h
    refine hptr.bind hs₁ fun elemPtr s₂ h₂ hs₂ hptr => ?_
    have hlong : Gives (fun s' id => s'.module.types.get id = .ok (.int 64))
        (liftM (Build.intType 64) : Lower TypeId) s₂ := .internType rfl rfl fun _ h => h
    refine hlong.bind hs₂ fun long s₃ h₃ hs₃ hlong => ?_
    refine Gives.step hs₃ fun data s₄ h₄ hs₄ => Gives.step hs₄ fun length s₅ h₅ hs₅ =>
      Gives.step hs₅ fun capacity s₆ h₆ hs₆ => ?_
    have hnames := (h₄.trans (h₅.trans h₆)).module.types
    have hptr' : s₆.module.types.get elemPtr = .ok (.pointer elem) :=
      (h₃.module.types.trans hnames).get_of_isOpaque_eq_false hptr rfl
    have hlong' : s₆.module.types.get long = .ok (.int 64) := hnames.get_of_isOpaque_eq_false hlong rfl
    have hmembers : ∀ e ∈ [(data, elemPtr), (length, long), (capacity, long)],
        ∃ ty, s₆.module.types.get e.2 = .ok ty ∧ ty.isOpaque = false := by
      simp only [List.forall_mem_cons, List.not_mem_nil, false_implies, implies_true, and_true]
      exact ⟨⟨_, hptr', rfl⟩, ⟨_, hlong', rfl⟩, _, hlong', rfl⟩
    refine (proceeds_completeObject hs₆ ?_ fun e he => ?_).bind hs₆ fun _ s₇ h₇ hs₇ _ => ?_
    · intro name hfull hmem
      obtain ⟨e, he, rfl⟩ := List.mem_map.1 hmem
      obtain ⟨ty', hty', hnot⟩ := hmembers e he
      cases hfull.symm.trans hty'
      cases hnot
    · obtain ⟨ty', hty', -⟩ := hmembers e he
      exact ⟨ty', hty'⟩
    · have hlater := ((h₁.trans (h₂.trans h₃)).trans (h₄.trans (h₅.trans h₆))).trans h₇
      refine Gives.step hs₇ fun table s₈ h₈ hs₈ => ?_
      split
      · refine Gives.step hs₈ fun here s₉ h₉ hs₉ => ?_
        have hlater₉ := (hlater.trans (h₈.trans h₉)).module.types
        refine (proceeds_buildIndex elem hs₉ (hty.mono hlater₉)).gives.bind hs₉
          fun _ s₁₀ h₁₀ hs₁₀ _ => ?_
        have hlater₁₀ := hlater₉.trans h₁₀.module.types
        refine (proceeds_buildAppend hs₁₀ (hty.mono hlater₁₀) (helem.mono hlater₁₀)).gives.bind hs₁₀
          fun _ s₁₁ h₁₁ hs₁₁ _ => ?_
        refine (proceeds_buildDelete hs₁₁ (hty.mono (hlater₁₀.trans h₁₁.module.types))).gives.bind
          hs₁₁ fun _ s₁₂ _ hs₁₂ _ => .of_stepwise hs₁₂
      · exact .of_stepwise hs₈

end DynamicArray

/-! ### Placeholders -/

/-- A type that a placeholder stands for can be written down. -/
theorem ObjectInfo.known_placeholderFor (name : Name) {ty : TypeId} {byType : Table TypeId Name}
    (hty : m.types.IsSource ty) :
    (ObjectInfo.placeholderFor name ty).Known names m byType name where
  ty := hty
  methods h := by cases h
  constructors := OverloadSet.holds_empty _

/-- Names stand for types that can be written down, and what they hide is known. -/
theorem gives_bindPlaceholders (params : List (Name × TypeId)) {s : Lowering} (hs : s.Known)
    (hparams : ∀ p ∈ params, s.IsSource p.2) :
    Gives (fun s' shadowed => ∀ e ∈ shadowed, ∀ info ∈ e.2.previous,
      info.Known s'.names s'.module s'.context.symbols.byType e.1) (bindPlaceholders params) s := by
  induction params generalizing s with
  | nil =>
      unfold bindPlaceholders
      exact .pure fun e he => absurd he List.not_mem_nil
  | cons param rest ih =>
      obtain ⟨name, ty⟩ := param
      unfold bindPlaceholders
      refine (gives_symbols s).bind hs fun table s₁ _ hs₁ hsame => ?_
      obtain ⟨rfl, rfl⟩ := hsame
      dsimp only
      have hty : s₁.IsSource ty := hparams (name, ty) List.mem_cons_self
      have hbind : Gives (fun s' _ => s'.names = s₁.names ∧ s'.module = s₁.module)
          (modifySymbols fun _ => (s₁.context.symbols.bindPlaceholder name ty).2) s₁ := by
        constructor
        intro a s' h
        cases h
        refine ⟨Lowering.evolves_context rfl (.refl _) fun hs => ?_, rfl, rfl⟩
        exact hs.insertObject (ObjectInfo.known_placeholderFor name hty)
      refine hbind.bind hs₁ fun _ s₂ h₂ hs₂ hkeep => ?_
      refine (ih hs₂ fun p hp => (hparams p (List.mem_cons_of_mem _ hp)).mono h₂.module.types).bind
        hs₂ fun shadowed s₃ h₃ _ hshadowed => .pure fun e he info hinfo => ?_
      rcases List.mem_cons.1 he with rfl | he
      · have hold : s₁.context.symbols.objects.get? name = some info := hinfo
        have hlater := h₂.trans h₃
        exact (hs₁.objects hold).mono hlater.byType hlater.names hlater.module
      · exact hshadowed e he info hinfo

/-- What was hidden is brought back. -/
theorem proceeds_unbindPlaceholders (shadowed : List (Name × Shadowed)) {s : Lowering}
    (hs : s.Known)
    (hshadowed : ∀ e ∈ shadowed, ∀ info ∈ e.2.previous,
      info.Known s.names s.module s.context.symbols.byType e.1) :
    Proceeds (unbindPlaceholders shadowed) s := by
  induction shadowed generalizing s with
  | nil => exact .pure trivial
  | cons entry rest ih =>
      obtain ⟨name, hidden⟩ := entry
      unfold unbindPlaceholders
      refine (ih hs fun e he => hshadowed e (List.mem_cons_of_mem _ he)).bind hs
        fun _ s₁ h₁ _ _ => ⟨fun {_ s₂} h => ⟨?_, trivial⟩⟩
      have hprevious : ∀ info ∈ hidden.previous,
          info.Known s₁.names s₁.module s₁.context.symbols.byType name := fun info hinfo =>
        (hshadowed (name, hidden) List.mem_cons_self info hinfo).mono h₁.byType h₁.names h₁.module
      cases h
      refine Lowering.evolves_context rfl ?_ fun hs₁ => ?_
      · exact SymbolTable.byType_unbindPlaceholder s₁.context.symbols name hidden ▸ Table.Grow.refl _
      unfold SymbolTable.unbindPlaceholder
      dsimp only
      split
      · rename_i previous heq
        exact hs₁.insertObject (hprevious previous heq)
      · split
        · split
          · exact { hs₁ with objects := fun hget => hs₁.objects (Table.get?_of_get?_erase hget) }
          · exact hs₁
        · exact hs₁

/-! ### Instances of templates -/

/-- A new instance in the table. -/
theorem proceeds_recordInstance (name : Name) (args : List TypeId) {ty : TypeId}
    (hty : s.IsSource ty) : Proceeds (recordInstance name args ty) s where
  run h := by
    cases h
    refine ⟨Lowering.evolves_context rfl (.refl _) fun hs => { hs with
      instances := fun hget => ?_ }, trivial⟩
    simp only [TemplateTable.recordInstance, Table.get?_insert] at hget
    split at hget
    · cases hget
      exact hty
    · exact hs.instances hget

section

variable [r.IsStepwise]

/-- An instance of a template that the program declares gets its members and methods. -/
theorem proceeds_fillDeclared {ty : TypeId} (template : Template) (members : List Field)
    (methods : List (Option Node)) {args : List TypeId} (span : Span) (hs : s.Known)
    (hty : s.IsSource ty) (hargs : ∀ a ∈ args, s.IsSource a) :
    Proceeds (r.fillDeclared ty template members methods args span) s := by
  unfold Recur.fillDeclared
  refine (gives_bindPlaceholders (template.params.zip args) hs fun p hp =>
    hargs p.2 (List.of_mem_zip hp).2).bind hs fun shadowed s₁ h₁ hs₁ hshadowed => ?_
  refine Gives.step hs₁ fun here s₂ h₂ hs₂ => ?_
  have hbody : Proceeds (asNewPass do
      r.layout ty members span
      r.declareMembers ty methods
      r.defineMembers methods) s₂ := by
    unfold asNewPass
    refine Gives.step hs₂ fun outer s₃ h₃ hs₃ => Gives.step hs₃ fun thisName s₄ h₄ hs₄ =>
      Gives.step hs₄ fun _ s₅ h₅ hs₅ => ?_
    have hty₅ : s₅.IsSource ty :=
      hty.mono ((h₁.trans h₂).trans (h₃.trans (h₄.trans h₅))).module.types
    have hinner : Proceeds (do
        r.layout ty members span
        r.declareMembers ty methods
        r.defineMembers methods) s₅ := by
      refine (proceeds_layout ty members span hs₅).bind hs₅ fun _ s₆ h₆ hs₆ _ => ?_
      refine (proceeds_declareMembers methods hs₆ (hty₅.mono h₆.module.types)).bind hs₆
        fun _ s₇ _ hs₇ _ => .of_stepwise hs₇
    refine hinner.bind hs₅ fun _ s₆ _ hs₆ _ => Gives.step hs₆ fun fatal s₇ _ hs₇ =>
      Gives.step hs₇ fun _ s₈ _ hs₈ => ?_
    split <;> exact .of_stepwise hs₈
  refine hbody.bind hs₂ fun _ s₃ h₃ hs₃ _ => ?_
  have hlater := h₂.trans h₃
  refine (proceeds_unbindPlaceholders shadowed hs₃ fun e he info hinfo =>
    (hshadowed e he info hinfo).mono hlater.byType hlater.names hlater.module).bind hs₃
      fun _ s₄ _ hs₄ _ => .of_stepwise hs₄

/-- An instance gets the members and methods of its template. -/
theorem proceeds_fillInstance {ty : TypeId} (canonical : String) (template : Template)
    {args : List TypeId} (span : Span) (hs : s.Known) (hty : s.IsSource ty)
    (hargs : ∀ a ∈ args, s.IsSource a) :
    Proceeds (r.fillInstance ty canonical template args span) s := by
  unfold Recur.fillInstance
  split
  · split
    · exact DynamicArray.proceeds_build hs hty (hargs _ List.mem_cons_self)
    · exact .of_stepwise hs
  · exact proceeds_fillDeclared template _ _ span hs hty hargs

/-- A new instance is a structure, or an object of the same spelling stands in for it. -/
theorem gives_newInstance (name : Name) {args : List TypeId} (template : Template) (span : Span)
    (hs : s.Known) (hargs : ∀ a ∈ args, s.IsSource a) :
    Gives Lowering.IsSource (r.newInstance name args template span) s := by
  unfold Recur.newInstance
  refine Gives.step hs fun text s₁ h₁ hs₁ => Gives.step hs₁ fun argTexts s₂ h₂ hs₂ => ?_
  refine (gives_intern _ s₂).bind hs₂ fun canonicalName s₃ h₃ hs₃ hcanonical => ?_
  refine (gives_symbols s₃).bind hs₃ fun table s₄ h₄ hs₄ hsame => ?_
  obtain ⟨rfl, rfl⟩ := hsame
  split
  · rename_i info hinfo
    have hty := (hs₄.objects hinfo).ty
    refine (proceeds_recordInstance name args hty).bind hs₄ fun _ s₅ h₅ _ _ => .pure ?_
    exact hty.mono h₅.module.types
  · have hargs₄ : ∀ a ∈ args, s₄.IsSource a := fun a ha =>
      (hargs a ha).mono (h₁.trans (h₂.trans h₃)).module.types
    refine (gives_namedStruct _ hs₄).bind hs₄ fun ty s₅ h₅ hs₅ hnew => ?_
    obtain ⟨-, hty, hbyType⟩ := hnew
    refine (gives_declareNew (h₅.names _ _ hcanonical) hty hbyType).bind hs₅ fun _ s₆ h₆ hs₆ hty₆ => ?_
    refine (proceeds_recordInstance name args hty₆).bind hs₆ fun _ s₇ h₇ hs₇ _ => ?_
    have hty₇ : s₇.IsSource ty := hty₆.mono h₇.module.types
    refine (proceeds_fillInstance _ template span hs₇ hty₇ fun a ha =>
      (hargs₄ a ha).mono (h₅.trans (h₆.trans h₇)).module.types).bind hs₇ fun _ s₈ h₈ _ _ => .pure ?_
    exact hty₇.mono h₈.module.types

/-- An instance that is asked for can be written down. -/
theorem yields_instanceOf (name : Name) {args : List TypeId} (span : Span) (hs : s.Known)
    (hargs : ∀ a ∈ args, s.IsSource a) :
    Yields Lowering.IsSource (r.instanceOf name args span) s := by
  unfold Recur.instanceOf
  refine (Yields.lift (gives_get s)).bind hs fun a s₁ _ hs₁ hsame => ?_
  obtain ⟨rfl, rfl⟩ := hsame
  dsimp only
  split
  · rename_i ty hty
    exact .pure (hs.instances hty)
  · refine Yields.step hs₁ fun text s₂ h₂ hs₂ => ?_
    split
    · exact .lift (gives_newInstance name _ span hs₂ fun b hb => (hargs b hb).mono h₂.module.types)
    · split <;> exact .reject hs₂

end

end SsaCompiler
