/-
# Code as it is written and as it runs

While code is written, the module says where the next instruction goes. A piece of code is
what has been written between two such places, and running it leads from the one place to the
other, in every module that the module grows into.

A piece of code that computes something either reaches its end with the result, or it stops
with a division by zero. On the way it binds only values of its own: older values keep what
they were, and so does the room that has been made for variables, wherever it was made.
-/

import SsaCompiler.Proofs.Ir.Growth
import SsaCompiler.Proofs.Machine.Instruction
import SsaCompiler.Proofs.Machine.Path

namespace SsaCompiler

namespace Module

/-! ### Writing -/

/-- Code goes on in an open block, behind the instructions that are there. -/
structure StandsAt (m : Module) (b : BlockId) (k : Nat) : Prop where
  position : m.position = some b
  block : ∃ d, m.block b = .ok d ∧ d.terminator = none ∧ d.instrs.size = k

/-- A later module in which, of the blocks that were there, only given ones have changed. -/
structure Writes (touched : List BlockId) (m m' : Module) : Prop where
  grows : m.Grows m'
  others : ∀ c, c ∉ touched → c.index < m.blocks.size → m'.block c = m.block c
  globals : m.globals.toList <+: m'.globals.toList
  errors : m'.codegenErrors = m.codegenErrors

/-- What has been written between two places. -/
structure Piece (touched : List BlockId) (m : Module) (b : BlockId) (k : Nat) (m' : Module)
    (b' : BlockId) (k' : Nat) : Prop where
  writes : m.Writes touched m'
  start : m.StandsAt b k
  stop : m'.StandsAt b' k'
  fresh : b' = b ∨ m.blocks.size ≤ b'.index

section Order

variable {touched touched' : List BlockId} {m m' m'' : Module} {b b' b'' : BlockId}
  {k k' k'' : Nat}

/-- A block that is there has a position in the table. -/
theorem block_lt {c : BlockId} {d : BlockData} (hc : m.block c = .ok d) :
    c.index < m.blocks.size := (Array.getElem?_eq_some_iff.1 (Checked.at_eq_ok_iff.1 hc)).1

/-- A value that is there has a position in the table. -/
theorem value_lt {v : ValueId} {d : ValueData} (hv : m.value v = .ok d) :
    v.index < m.values.size := (Array.getElem?_eq_some_iff.1 (Checked.at_eq_ok_iff.1 hv)).1

/-- A position in the table has a block. -/
theorem exists_block {c : BlockId} (hc : c.index < m.blocks.size) : ∃ d, m.block c = .ok d :=
  ⟨m.blocks[c.index], Checked.at_eq_ok_iff.2 (Array.getElem?_eq_getElem hc)⟩

theorem Writes.refl (touched : List BlockId) (m : Module) : m.Writes touched m :=
  ⟨.refl m, fun _ _ _ => rfl, List.prefix_rfl, rfl⟩

/-- Writing goes on, in blocks that may be changed or are new. -/
theorem Writes.trans (h : m.Writes touched m') (h' : m'.Writes touched' m'')
    (hsub : ∀ c ∈ touched', c ∈ touched ∨ m.blocks.size ≤ c.index) : m.Writes touched m'' where
  grows := h.grows.trans h'.grows
  others c hc hlt := by
    have hc' : c ∉ touched' := by
      intro hmem
      rcases hsub c hmem with hmem | hle
      · exact hc hmem
      · omega
    rw [h'.others c hc' (Nat.lt_of_lt_of_le hlt h.grows.blocks_size), h.others c hc hlt]
  globals := h.globals.trans h'.globals
  errors := h'.errors.trans h.errors

theorem Writes.mono (h : m.Writes touched m') (hsub : ∀ c ∈ touched, c ∈ touched') :
    m.Writes touched' m' :=
  ⟨h.grows, fun c hc hlt => h.others c (fun hmem => hc (hsub c hmem)) hlt, h.globals, h.errors⟩

theorem Piece.refl (touched : List BlockId) (h : m.StandsAt b k) :
    m.Piece touched b k m b k := ⟨.refl touched m, h, h, .inl rfl⟩

theorem Piece.trans (h : m.Piece [b] b k m' b' k') (h' : m'.Piece [b'] b' k' m'' b'' k'') :
    m.Piece [b] b k m'' b'' k'' where
  writes := by
    refine h.writes.trans h'.writes fun c hc => ?_
    obtain rfl := List.mem_singleton.1 hc
    rcases h.fresh with rfl | hle
    · exact .inl (List.mem_singleton.2 rfl)
    · exact .inr hle
  start := h.start
  stop := h'.stop
  fresh := by
    have hsize := h.writes.grows.blocks_size
    rcases h'.fresh with rfl | hle
    · exact h.fresh
    · exact .inr (Nat.le_trans hsize hle)

end Order

/-! ### Requests at a place -/

section Requests

variable {m : Module} {b : BlockId} {k : Nat}

/-- Code goes on at one place only. -/
theorem StandsAt.unique {b' : BlockId} {k' : Nat} (h : m.StandsAt b k) (h' : m.StandsAt b' k') :
    b = b' ∧ k = k' := by
  cases h.position.symm.trans h'.position
  obtain ⟨d, hd, -, hsize⟩ := h.block
  obtain ⟨d', hd', -, hsize'⟩ := h'.block
  cases hd.symm.trans hd'
  exact ⟨rfl, hsize.symm.trans hsize'⟩

/-- A new value does not change where code goes. -/
theorem StandsAt.withValue (h : m.StandsAt b k) (ty : TypeId) (origin : ValueDef) :
    (m.withValue ty origin).StandsAt b k := ⟨h.position, h.block⟩

/-- A new type does not change where code goes. -/
theorem StandsAt.withType (h : m.StandsAt b k) (ty : IrType) (hty : ty.description? = some ty :=
    by exact IrType.description?_eq_self _) : (m.withType ty hty).StandsAt b k :=
  ⟨h.position, h.block⟩

/-- A new instruction moves the place by one. -/
theorem StandsAt.withInstr (h : m.StandsAt b k) (ty : TypeId) (i : Instr) :
    (m.withInstr b ty i).StandsAt b (k + 1) := by
  obtain ⟨d, hd, hopen, hsize⟩ := h.block
  refine ⟨h.position, _, block_modify hd b, ?_, ?_⟩
  · simpa using hopen
  · simpa using hsize

/-- A new value is no change of a block. -/
theorem writes_withValue (touched : List BlockId) (m : Module) (ty : TypeId) (origin : ValueDef) :
    m.Writes touched (m.withValue ty origin) :=
  ⟨grows_withValue m ty origin, fun _ _ _ => rfl, List.prefix_rfl, rfl⟩

/-- A new value is a piece without code. -/
theorem piece_withValue (h : m.StandsAt b k) (ty : TypeId) (origin : ValueDef) :
    m.Piece [b] b k (m.withValue ty origin) b k where
  writes := writes_withValue [b] m ty origin
  start := h
  stop := h.withValue ty origin
  fresh := .inl rfl

/-- A new type is no change of a block. -/
theorem writes_withType (touched : List BlockId) (m : Module) (ty : IrType)
    (hty : ty.description? = some ty := by exact IrType.description?_eq_self _) :
    m.Writes touched (m.withType ty hty) :=
  ⟨grows_withType m ty hty, fun _ _ _ => rfl, List.prefix_rfl, rfl⟩

/-- A new type is a piece without code. -/
theorem piece_withType (h : m.StandsAt b k) (ty : IrType) (hty : ty.description? = some ty :=
    by exact IrType.description?_eq_self _) : m.Piece [b] b k (m.withType ty hty) b k where
  writes := writes_withType [b] m ty hty
  start := h
  stop := h.withType ty hty
  fresh := .inl rfl

/-- A new function does not change where code goes. -/
theorem piece_withFunction (hat : m.StandsAt b k) (d : FunctionData)
    (hnew : m.functionByName? d.name = none) :
    m.Piece [b] b k (m.withFunction d hnew) b k where
  writes := ⟨grows_withFunction m d hnew, fun _ _ _ => rfl, List.prefix_rfl, rfl⟩
  start := hat
  stop := ⟨hat.position, hat.block⟩
  fresh := .inl rfl

/-- A change of one block leaves the others alone. -/
theorem block_modify_ne {f : BlockData → BlockData} {blocks : Array BlockData} {b c : BlockId}
    (hne : c ≠ b) :
    Checked.at (blocks.modify b.index f) c.index = Checked.at blocks c.index := by
  have hindex : b.index ≠ c.index := by
    intro h
    apply hne
    cases b
    cases c
    simpa using h.symm
  unfold Checked.at
  rw [Array.getElem?_modify, if_neg hindex]

/-- An instruction is a change of its block only. A choice may only be the first one, and in a
block where two ways meet. -/
theorem writes_withInstr {d : BlockData} (hd : m.block b = .ok d) (hopen : d.terminator = none)
    (ty : TypeId) {i : Instr} (hplain : (∀ incoming, i ≠ .phi incoming) ∨
      d.instrs.size = 0 ∧ d.name ∈ joinNames) : m.Writes [b] (m.withInstr b ty i) := by
  refine ⟨grows_withInstr hd hopen ty hplain, fun c hc _ => ?_, List.prefix_rfl, rfl⟩
  exact block_modify_ne (fun heq => hc (heq ▸ List.mem_singleton.2 rfl))

/-- An instruction that is no choice is a piece of one step. -/
theorem piece_withInstr (h : m.StandsAt b k) (ty : TypeId) {i : Instr}
    (hplain : ∀ incoming, i ≠ .phi incoming) :
    m.Piece [b] b k (m.withInstr b ty i) b (k + 1) where
  writes := by
    obtain ⟨d, hd, hopen, -⟩ := h.block
    exact writes_withInstr hd hopen ty (.inl hplain)
  start := h
  stop := h.withInstr ty i
  fresh := .inl rfl

/-- The block at which code is written is not the one that is made next. -/
theorem StandsAt.nextBlock_ne (h : m.StandsAt b k) : m.nextBlock ≠ b := by
  rintro rfl
  obtain ⟨d, hd, -⟩ := h.block
  exact absurd (block_lt hd) (Nat.lt_irrefl _)

/-- The block in which code goes on is not finished. -/
theorem StandsAt.currentBlockTerminated (h : m.StandsAt b k) :
    m.currentBlockTerminated = .ok false := by
  obtain ⟨d, hd, hopen, -⟩ := h.block
  exact currentBlockTerminated_eq_false_iff.2 ⟨b, h.position, d, hd, hopen⟩

/-- An instruction goes where code goes on. -/
theorem pushInstr_of_standsAt (h : m.StandsAt b k) (ty : TypeId) (i : Instr) :
    Build.pushInstr ty i m = .ok (m.nextValue, m.withInstr b ty i) := by
  rw [Build.pushInstr_run, h.currentBlockTerminated, h.position]

/-- An instruction that has been written stands at its place ever after. -/
theorem instr_of_grows {ty : TypeId} {i : Instr} {M : Module} (h : m.StandsAt b k)
    (hgrows : (m.withInstr b ty i).Grows M) :
    ∃ d, M.block b = .ok d ∧ d.instrs[k]? = some m.nextValue ∧
      M.value m.nextValue = .ok ⟨ty, .instr i⟩ := by
  obtain ⟨d, hd, hopen, hsize⟩ := h.block
  obtain ⟨d', hd', hnew⟩ := hgrows.blocks (block_modify hd b)
  refine ⟨d', hd', hnew.getElem? ?_, hgrows.values (value_withValue_nextValue m ty _)⟩
  rw [if_pos rfl, ← hsize]
  exact Array.getElem?_push_size

end Requests

/-- A value that is room for a variable. -/
def IsRoom (m : Module) (v : ValueId) : Prop := ∃ ty t, m.value v = .ok ⟨ty, .instr (.alloca t)⟩

end Module

/-! ### Requests without code -/

namespace Build

/-- A request that writes no code. -/
class Silent {α : Type} (x : Build α) : Prop where
  piece : ∀ {m a m' b k}, x m = .ok (a, m') → m.StandsAt b k → m.Piece [b] b k m' b k

section

variable {α β : Type}

instance (a : α) : Silent (pure a : Build α) where
  piece h hat := by
    cases h
    exact .refl _ hat

instance {x : Build α} {f : α → Build β} [hx : Silent x] [hf : ∀ a, Silent (f a)] :
    Silent (x >>= f) where
  piece h hat := by
    obtain ⟨a, m₁, hfirst, hrest⟩ := bind_eq_ok_iff.1 h
    have hpiece := hx.piece hfirst hat
    exact hpiece.trans ((hf a).piece hrest hpiece.stop)

instance : Silent (get : Build Module) where
  piece h hat := by
    cases h
    exact .refl _ hat

instance (q : Module → Checked α) : Silent (ask q) where
  piece h hat := by
    obtain ⟨-, rfl⟩ := ask_eq_ok_iff.1 h
    exact .refl _ hat

instance (ty : TypeId) : Silent (typeAt ty) := inferInstanceAs (Silent (ask _))

instance (ty : IrType) (hty : ty.description? = some ty) :
    Silent (internType ty hty) where
  piece h hat := by
    cases h
    exact Module.piece_withType hat ty hty

instance (bits : Nat) : Silent (intType bits) := inferInstanceAs (Silent (internType _ _))

instance (bits : Nat) : Silent (floatType bits) := inferInstanceAs (Silent (internType _ _))

instance : Silent voidType := inferInstanceAs (Silent (internType _ _))

instance (pointee : TypeId) : Silent (pointerType pointee) :=
  inferInstanceAs (Silent (internType _ _))

instance (elem : TypeId) (length : Nat) : Silent (arrayType elem length) :=
  inferInstanceAs (Silent (internType _ _))

instance (params : List TypeId) (ret : TypeId) (variadic : Bool) :
    Silent (functionType params ret variadic) := inferInstanceAs (Silent (internType _ _))

instance (ty : TypeId) (origin : ValueDef) : Silent (pushValue ty origin) where
  piece h hat := by
    cases h
    exact Module.piece_withValue hat ty origin

instance (f : FunctionId) (i : Nat) (types : List TypeId) : Silent (pushParams f i types) := by
  induction types generalizing i with
  | nil => exact inferInstanceAs (Silent (pure []))
  | cons ty types ih =>
      unfold pushParams
      infer_instance

/-- A function or a global that is added. -/
theorem silent_modify {f : Module → Module} (htypes : ∀ m, (f m).types = m.types)
    (hvalues : ∀ m, (f m).values = m.values) (hblocks : ∀ m, (f m).blocks = m.blocks)
    (hposition : ∀ m, (f m).position = m.position)
    (hfunctions : ∀ m, m.functions.toList <+: (f m).functions.toList)
    (hglobals : ∀ m, m.globals.toList <+: (f m).globals.toList)
    (herrors : ∀ m, (f m).codegenErrors = m.codegenErrors) :
    Silent (modify f : Build PUnit) where
  piece {m a m' b k} h hat := by
    cases h
    have hblock : ∀ c, (f m).block c = m.block c := by
      intro c
      unfold Module.block
      rw [hblocks]
    have hvalue : ∀ v, (f m).value v = m.value v := by
      intro v
      unfold Module.value
      rw [hvalues]
    have hgrows : m.Grows (f m) := by
      refine ⟨fun {_ _} ht _ => ?_, fun {v _} hv => (hvalue v).trans hv, fun {c d} hc => ?_,
        fun {g d} hg => ⟨d, ?_, .refl d⟩, Nat.le_of_eq (herrors m).symm⟩
      · rwa [htypes]
      · exact ⟨d, (hblock c).trans hc, .refl _ d⟩
      · obtain ⟨more, hmore⟩ := hfunctions m
        have hg' := Checked.at_eq_ok_iff.1 hg
        rw [← Array.getElem?_toList] at hg'
        apply Checked.at_eq_ok_iff.2
        rw [← Array.getElem?_toList, ← hmore,
          List.getElem?_append_left (List.getElem?_eq_some_iff.1 hg').1, hg']
    refine ⟨⟨hgrows, fun c _ _ => hblock c, hglobals m, herrors m⟩, hat, ?_, .inl rfl⟩
    obtain ⟨d, hd, hopen, hsize⟩ := hat.block
    exact ⟨(hposition m).trans hat.position, d, (hblock b).trans hd, hopen, hsize⟩

instance (name : String) (ty : TypeId) : Silent (declareFunction name ty) where
  piece h hat := by
    rcases declareFunction_eq_ok h with ⟨-, rfl⟩ | ⟨-, -, _, params, m₁, -, hparams, hnew, rfl⟩
    · exact .refl _ hat
    · have hpiece := Silent.piece hparams hat
      exact hpiece.trans (Module.piece_withFunction hpiece.stop _ hnew)

instance (text : String) : Silent (globalString text) := by
  have hpush : ∀ ty init, Silent (modify fun m =>
      { m with
        globals := m.globals.push ⟨s!".str.{m.stringCount}", ty, some init⟩
        stringCount := m.stringCount + 1 } : Build PUnit) :=
    fun ty init => silent_modify (fun _ => rfl) (fun _ => rfl) (fun _ => rfl) (fun _ => rfl)
      (fun _ => List.prefix_rfl) (fun m => by simp) fun _ => rfl
  unfold globalString
  infer_instance

end

end Build

/-! ### Running -/

namespace Point

/-- A value is there at a point. -/
def Holds (m : Module) (p : Point) (v : ValueId) (x : Val) : Prop :=
  p.frame.operand m p.state.globals v = .ok x

/-- Between two points only values from a position on have been bound, none of them room for a
variable, and the machine has done nothing but count steps. -/
structure Keeps (m : Module) (low : Nat) (p q : Point) : Prop where
  values : ∀ id : ValueId, id.index < low ∨ m.IsRoom id →
    q.frame.values[id]? = p.frame.values[id]?
  state : ∃ n, q.state = { p.state with steps := n }

/-- A piece of code from a point to a place that computes something: it arrives there with the
result, or it stops with a division by zero. -/
def Yields {α : Type} (m : Module) (call : Caller) (name : String) (low : Nat) (p : Point)
    (b : BlockId) (k : Nat) (o : Option α) (R : α → Point → Prop) : Prop :=
  match o with
  | some a => ∃ q, Reaches m call name p q ∧ Keeps m low p q ∧ q.block = b ∧ q.next = k ∧ R a q
  | none => ∃ q, Reaches m call name p q ∧ q.state.output = p.state.output ∧
      Stops m call q (.failed .divisionByZero)

section Running

variable {m : Module} {call : Caller} {name : String} {low low' : Nat} {p q r : Point}
  {b b' : BlockId} {k k' : Nat} {v : ValueId} {x : Val}

theorem Keeps.refl (m : Module) (low : Nat) (p : Point) : Keeps m low p p :=
  ⟨fun _ _ => rfl, p.state.steps, rfl⟩

/-- What one piece keeps and then another one. -/
theorem Keeps.trans (h : Keeps m low p q) (h' : Keeps m low' q r) (hlow : low ≤ low') :
    Keeps m low p r where
  values id hid := by
    have hid' : id.index < low' ∨ m.IsRoom id := hid.imp_left fun hlt => Nat.lt_of_lt_of_le hlt hlow
    rw [h'.values id hid', h.values id hid]
  state := by
    obtain ⟨n, hn⟩ := h.state
    obtain ⟨n', hn'⟩ := h'.state
    exact ⟨n', by rw [hn', hn]⟩

/-- The globals stay where they are. -/
theorem Keeps.globals (h : Keeps m low p q) : q.state.globals = p.state.globals := by
  obtain ⟨n, hn⟩ := h.state
  rw [hn]

/-- The memory stays what it is. -/
theorem Keeps.memory (h : Keeps m low p q) : q.state.memory = p.state.memory := by
  obtain ⟨n, hn⟩ := h.state
  rw [hn]

theorem Keeps.output (h : Keeps m low p q) : q.state.output = p.state.output := by
  obtain ⟨n, hn⟩ := h.state
  rw [hn]

/-- An older value keeps what it was. -/
theorem Keeps.holds (h : Keeps m low p q) (hlow : v.index < low ∨ m.IsRoom v)
    (hp : Holds m p v x) : Holds m q v x := by
  unfold Holds Frame.operand at hp ⊢
  rw [h.globals, h.values v hlow]
  exact hp

theorem Yields.pure {α : Type} {a : α} {R : α → Point → Prop} (hb : p.block = b)
    (hk : p.next = k) (hR : R a p) : Yields m call name low p b k (some a) R :=
  ⟨p, .refl, .refl m low p, hb, hk, hR⟩

theorem Yields.bind {α β : Type} {o : Option α} {f : α → Option β} {R : α → Point → Prop}
    {R' : β → Point → Prop} (h : Yields m call name low p b k o R) (hlow : low ≤ low')
    (hrest : ∀ a q, o = some a → Keeps m low p q → q.block = b → q.next = k → R a q →
      Yields m call name low' q b' k' (f a) R') :
    Yields m call name low p b' k' (o.bind f) R' := by
  cases o with
  | none => exact h
  | some a =>
      obtain ⟨q, hpath, hkeeps, hb, hk, hR⟩ := h
      have hnext := hrest a q rfl hkeeps hb hk hR
      change Yields m call name low p b' k' (f a) R'
      cases hfa : f a with
      | none =>
          rw [hfa] at hnext
          obtain ⟨r, hpath', houtput, hstops⟩ := hnext
          exact ⟨r, hpath.trans hpath', houtput.trans hkeeps.output, hstops⟩
      | some c =>
          rw [hfa] at hnext
          obtain ⟨r, hpath', hkeeps', hb', hk', hR'⟩ := hnext
          exact ⟨r, hpath.trans hpath', hkeeps.trans hkeeps' hlow, hb', hk', hR'⟩

theorem Yields.mono {α : Type} {o : Option α} {R : α → Point → Prop}
    (h : Yields m call name low' p b k o R) (hlow : low ≤ low') :
    Yields m call name low p b k o R := by
  cases o with
  | none => exact h
  | some a =>
      obtain ⟨q, hpath, hkeeps, hrest⟩ := h
      exact ⟨q, hpath, (Keeps.refl m low p).trans hkeeps hlow, hrest⟩

/-- A computation whose result is seen in another way. -/
theorem Yields.map {α β : Type} {o : Option α} {f : α → β} {R : α → Point → Prop}
    {R' : β → Point → Prop} (h : Yields m call name low p b k o R)
    (hR : ∀ a q, Keeps m low p q → R a q → R' (f a) q) :
    Yields m call name low p b k (o.map f) R' := by
  cases o with
  | none => exact h
  | some a =>
      obtain ⟨q, hpath, hkeeps, hb, hk, ha⟩ := h
      exact ⟨q, hpath, hkeeps, hb, hk, hR a q hkeeps ha⟩

end Running

/-! ### Single instructions -/

section Instructions

variable {m M : Module} {call : Caller} {name : String} {b : BlockId} {k : Nat} {frame : Frame}
  {s : MachineState} {ty : TypeId} {i : Instr} {v : Val}

/-- A value that has just been bound is there. -/
theorem holds_bind {id : ValueId} {b : BlockId} {k : Nat}
    (hid : M.value id = .ok ⟨ty, .instr i⟩) : Holds M ⟨b, k, frame.bind id v, s⟩ id v := by
  have hself : (frame.bind id v).values[id]? = some v := Std.HashMap.getElem?_insert_self
  unfold Holds Frame.operand
  rw [hself, hid]
  rfl

/-- Binding one value leaves the others alone. -/
theorem keeps_bind {id : ValueId} {low : Nat} {b b' : BlockId} {k k' n : Nat}
    (hid : M.value id = .ok ⟨ty, .instr i⟩) (hlow : low ≤ id.index)
    (hroom : ∀ t, i ≠ .alloca t) :
    Keeps M low ⟨b, k, frame, s⟩ ⟨b', k', frame.bind id v, { s with steps := n }⟩ where
  values other hother := by
    have hne : id ≠ other := by
      rintro rfl
      rcases hother with hlt | ⟨ty', t, hvalue⟩
      · omega
      · cases hid.symm.trans hvalue
        exact hroom t rfl
    change (frame.values.insert id v)[other]? = frame.values[other]?
    rw [Std.HashMap.getElem?_insert]
    simp [hne]
  state := ⟨n, rfl⟩

/-- An instruction that has been written and computes a value. -/
theorem yields_instr (hat : m.StandsAt b k) (hgrows : (m.withInstr b ty i).Grows M)
    (hroom : ∀ t, i ≠ .alloca t)
    (hrun : Exec.instruction M call frame m.nextValue i s.tick =
      .ok (frame.bind m.nextValue v) s.tick) :
    Yields M call name m.values.size ⟨b, k, frame, s⟩ b (k + 1) (some v)
      fun x q => Holds M q m.nextValue x := by
  obtain ⟨d, hblock, hid, hvalue⟩ := Module.instr_of_grows hat hgrows
  refine ⟨_, Relation.ReflTransGen.single (.instr hblock hid hvalue hrun (Nat.lt_succ_self _)),
    ?_, rfl, rfl, holds_bind hvalue⟩
  exact keeps_bind hvalue (Nat.le_refl _) hroom

/-- An instruction that has been written and fails. -/
theorem yields_none {α : Type} {R : α → Point → Prop} (hat : m.StandsAt b k)
    (hgrows : (m.withInstr b ty i).Grows M)
    (hrun : Exec.instruction M call frame m.nextValue i s.tick =
      .error (.failed .divisionByZero) s.tick) {low : Nat} {b' : BlockId} {k' : Nat} :
    Yields M call name low ⟨b, k, frame, s⟩ b' k' (none : Option α) R := by
  obtain ⟨d, hblock, hid, hvalue⟩ := Module.instr_of_grows hat hgrows
  exact ⟨_, .refl, rfl, .instr hblock hid hvalue hrun rfl⟩

end Instructions

end Point

end SsaCompiler
