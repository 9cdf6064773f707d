/-
# Evaluating chains from left to right

A stretch of code is what has been written between two states of a module. It owns the places that
have been taken in between: in every block those behind the ones that were taken before, where the
end of a block takes a place as an instruction does. So stretches that are written one after the
other own different places. A stretch is run on a path from the place where code went on before it
was written to the one where code goes on behind it, without leaving the places that it owns. A path
of the machine may run one stretch after the other, with jumps in between.

A chain is a tree of leaves. A term, or a comparison, is tested; an operand of a comparison is only
computed, and a chain that is one is a value, one or zero. From left to right the leaves are
evaluated until one of them settles the chain around it, and the ones behind it are passed over.

What a leaf does is what the machine does on its code, in the situation that the leaves before it
have left behind. From one term to the next the machine takes a step, and a chain that is a value
takes two: from its last term to the block in which its outcome is known, and from there on.
-/

import SsaCompiler.Proofs.Machine.Jump
import SsaCompiler.Proofs.Scalar.Reference

namespace SsaCompiler

/-! ### Stretches of code -/

namespace Module

variable {m m' : Module} {b : BlockId} {k : Nat} {d : BlockData}

/-- How many places of a block are taken. -/
def extent (m : Module) (b : BlockId) : Nat :=
  ((m.blocks[b.index]?.map fun d => d.instrs.size + if d.terminator.isSome then 1 else 0)).getD 0

/-- The places that are taken in a block that is there. -/
theorem extent_of_block (hb : m.block b = .ok d) :
    m.extent b = d.instrs.size + if d.terminator.isSome then 1 else 0 := by
  rw [extent, Checked.at_eq_ok_iff.1 hb]
  rfl

/-- Code goes on at the first place that is not taken. -/
theorem StandsAt.extent (h : m.StandsAt b k) : m.extent b = k := by
  obtain ⟨d, hd, hopen, hsize⟩ := h.block
  rw [extent_of_block hd, hopen, hsize]
  rfl

/-- In an empty block no place is taken. -/
theorem IsVacant.extent {named : String → Prop} (h : m.IsVacant b named) : m.extent b = 0 := by
  obtain ⟨d, hd, hopen, hsize, -⟩ := h
  rw [extent_of_block hd, hopen, hsize]
  rfl

/-- The end of a block takes one more place. -/
theorem StandsAt.extent_withTerminator (h : m.StandsAt b k) (t : Terminator) :
    (m.withTerminator b t).extent b = k + 1 := by
  obtain ⟨d, hd, -, hsize⟩ := h.block
  have hd' : (m.withTerminator b t).block b = .ok { d with terminator := some t } :=
    (block_modify hd b).trans (if_pos rfl ▸ rfl)
  rw [extent_of_block hd', ← hsize]
  rfl

/-- A place that is taken stays taken. -/
theorem GrowsBy.extent_le {New : Novelty} (h : GrowsBy New m m') (b : BlockId) :
    m.extent b ≤ m'.extent b := by
  cases hget : m.blocks[b.index]? with
  | none =>
      rw [extent, hget]
      exact Nat.zero_le _
  | some d =>
      have hd : m.block b = .ok d := Checked.at_eq_ok_iff.2 hget
      obtain ⟨d', hd', hmore⟩ := h.blocks hd
      rw [extent_of_block hd, extent_of_block hd']
      cases hend : d.terminator with
      | some t =>
          obtain rfl := hmore.ended t hend
          simp only [hend, Nat.le_refl]
      | none =>
          have hsize : d.instrs.size ≤ d'.instrs.size := by simpa using hmore.instrs.length_le
          simp only [Option.isSome_none, Bool.false_eq_true, if_false]
          omega

end Module

/-- What has been written between two states of a module. -/
structure Stretch where
  before : Module
  after : Module

namespace Stretch

variable {whole first rest l l' : Stretch} {b : BlockId} {k : Nat}

/-- The places that have been taken in between. -/
def Owns (l : Stretch) (b : BlockId) (k : Nat) : Prop := l.before.extent b ≤ k ∧ k < l.after.extent b

/-- Another stretch is written later. -/
def Precedes (l l' : Stretch) : Prop := ∀ b, l.after.extent b ≤ l'.before.extent b

/-- Another stretch is written in the meantime. -/
structure Covers (whole l : Stretch) : Prop where
  before : ∀ b, whole.before.extent b ≤ l.before.extent b
  after : ∀ b, l.after.extent b ≤ whole.after.extent b

/-- No place belongs to two stretches one of which is written later. -/
theorem Precedes.not_owns (h : l.Precedes l') (hl : l.Owns b k) : ¬ l'.Owns b k := fun hl' =>
  absurd (Nat.lt_of_lt_of_le hl.2 (h b)) (Nat.not_lt.2 hl'.1)

/-- The places of a part belong to the whole. -/
theorem Covers.owns (h : whole.Covers l) (hl : l.Owns b k) : whole.Owns b k :=
  ⟨Nat.le_trans (h.before b) hl.1, Nat.lt_of_lt_of_le hl.2 (h.after b)⟩

/-- A part of a part is a part. -/
theorem Covers.trans (h : whole.Covers first) (h' : first.Covers l) : whole.Covers l :=
  ⟨fun b => Nat.le_trans (h.before b) (h'.before b), fun b => Nat.le_trans (h'.after b) (h.after b)⟩

/-- The whole is a part of itself. -/
theorem Covers.refl (whole : Stretch) : whole.Covers whole :=
  ⟨fun _ => Nat.le_refl _, fun _ => Nat.le_refl _⟩

/-- A stretch is made of two, one written later than the other. -/
structure Splits (whole first rest : Stretch) : Prop where
  coversFirst : whole.Covers first
  coversRest : whole.Covers rest
  precedes : first.Precedes rest

/-- A module that grows in two steps. -/
theorem splits_of_grows {m m₁ m₂ m' : Module} (hfirst : m.Grows m₁) (hgap : m₁.Grows m₂)
    (hrest : m₂.Grows m') : (Stretch.mk m m').Splits ⟨m, m₁⟩ ⟨m₂, m'⟩ where
  coversFirst := ⟨fun _ => Nat.le_refl _, (hgap.trans hrest).extent_le⟩
  coversRest := ⟨(hfirst.trans hgap).extent_le, fun _ => Nat.le_refl _⟩
  precedes := hgap.extent_le

/-- What is written before comes before each part of what is written later. -/
theorem Splits.precedes_of_covers (h : whole.Splits first rest) (hl : first.Covers l)
    (hl' : rest.Covers l') : l.Precedes l' := fun b =>
  Nat.le_trans (hl.after b) (Nat.le_trans (h.precedes b) (hl'.before b))

/-- A stretch is run on a path through its own places only. -/
def Runs (M : Module) (call : Caller) (name : String) (l : Stretch) (p q : Point) : Prop :=
  l.before.StandsAt p.block p.next ∧ l.after.StandsAt q.block q.next ∧
    Relation.ReflTransGen (fun p q => l.Owns p.block p.next ∧ Point.Step M call name p q) p q

end Stretch

/-- The code of a leaf, and the value that tells its truth, if there is one. -/
structure Leaf extends Stretch where
  truth : Option ValueId

namespace Point

variable {M : Module} {call : Caller} {name : String} {wire wire' : BlockId → Nat → Prop}
  {ls ls' : List Leaf} {p q r : Point}

/-- A path that runs some leaves, one after the other. In between it takes steps from places that
are wired up for it. -/
inductive Follows (M : Module) (call : Caller) (name : String) (wire : BlockId → Nat → Prop) :
    List Leaf → Point → Point → Prop
  | done (p : Point) : Follows M call name wire [] p p
  | step {ls : List Leaf} {p q r : Point} (hwire : wire p.block p.next)
      (hstep : Step M call name p q) (hrest : Follows M call name wire ls q r) :
      Follows M call name wire ls p r
  | run {l : Leaf} {ls : List Leaf} {p q r : Point} (hrun : l.Runs M call name p q)
      (hrest : Follows M call name wire ls q r) : Follows M call name wire (l :: ls) p r

namespace Follows

theorem trans (h : Follows M call name wire ls p q)
    (h' : Follows M call name wire ls' q r) :
    Follows M call name wire (ls ++ ls') p r := by
  induction h with
  | done => exact h'
  | step hwire hstep _ ih => exact .step hwire hstep (ih h')
  | run hrun _ ih => exact .run hrun (ih h')

theorem tail (h : Follows M call name wire ls p q) (hwire : wire q.block q.next)
    (hstep : Step M call name q r) : Follows M call name wire ls p r := by
  have hlast := h.trans (.step hwire hstep (.done r))
  rwa [List.append_nil] at hlast

theorem mono (h : Follows M call name wire ls p q) (hwire : ∀ {b k}, wire b k → wire' b k) :
    Follows M call name wire' ls p q := by
  induction h with
  | done => exact .done _
  | step hold hstep _ ih => exact .step (hwire hold) hstep ih
  | run hrun _ ih => exact .run hrun ih

theorem reaches (h : Follows M call name wire ls p q) : Reaches M call name p q := by
  induction h with
  | done => exact .refl
  | step _ hstep _ ih => exact ih.head hstep
  | run hrun _ ih =>
      have hpath := hrun.2.2.lift id fun _ _ hstep => hstep.2
      exact hpath.trans ih

end Follows

end Point

/-- What a call has computed, and the state of the machine. -/
structure Situation where
  frame : Frame
  state : MachineState

namespace Situation

/-- The situation at a place. -/
def point (x : Situation) (b : BlockId) (k : Nat) : Point := ⟨b, k, x.frame, x.state⟩

/-- A step has been taken. -/
def tick (x : Situation) : Situation := ⟨x.frame, x.state.tick⟩

/-- The outcome of a chain is known as a value. -/
def withOutcome (x : Situation) (result : ValueId) (c : Bool) : Situation :=
  ⟨x.frame.bind result (.int (if c then 1 else 0)), x.state.tick.tick⟩

/-- The truth of a value. What has no value is false. -/
def truth (M : Module) (x : Situation) (value : Option ValueId) : Fallible Bool :=
  value.elim (.ok false) fun u => do
    return (← x.frame.operand M x.state.globals u).asBool?.getD false

end Situation

/-- A leaf is evaluated: its code is run, and its truth is known. -/
def Leaf.Evaluates (M : Module) (call : Caller) (name : String) (l : Leaf) (x y : Situation)
    (c : Bool) : Prop :=
  (∃ b k b' k', l.Runs M call name (x.point b k) (y.point b' k')) ∧ y.truth M l.truth = .ok c

/-- A tree of chains. -/
inductive Cascade where
  /-- A leaf that decides. -/
  | test (l : Leaf)
  /-- A leaf that is computed before something else. -/
  | after (l : Leaf) (rest : Cascade)
  /-- A term of a chain, and the terms behind it. -/
  | chain (op : LogicalOp) (first rest : Cascade)
  /-- A chain that is a value, before something else. -/
  | value (inner : Cascade) (result : ValueId) (rest : Cascade)

namespace Cascade

/-- The leaves from left to right. -/
def leaves : Cascade → List Leaf
  | test l => [l]
  | after l rest => l :: rest.leaves
  | chain _ first rest => first.leaves ++ rest.leaves
  | value inner _ rest => inner.leaves ++ rest.leaves

section Evaluation

variable (M : Module) (call : Caller) (name : String)

/-- Evaluation from left to right leads from one situation to another and has a truth value as its
outcome; the leaves that are evaluated on the way are listed. -/
inductive Evaluates : Cascade → Situation → List Leaf → Bool → Situation → Prop
  | test {l : Leaf} {x y : Situation} {c : Bool} (h : l.Evaluates M call name x y c) :
      Evaluates (.test l) x [l] c y
  | after {l : Leaf} {rest : Cascade} {x y z : Situation} {c c' : Bool} {ls : List Leaf}
      (h : l.Evaluates M call name x y c) (hrest : Evaluates rest y ls c' z) :
      Evaluates (.after l rest) x (l :: ls) c' z
  | settles {op : LogicalOp} {first rest : Cascade} {x y : Situation} {c : Bool} {ls : List Leaf}
      (h : Evaluates first x ls c y) (hop : op.settles c = true) :
      Evaluates (.chain op first rest) x ls c y
  | goesOn {op : LogicalOp} {first rest : Cascade} {x y z : Situation} {c c' : Bool}
      {ls ls' : List Leaf} (h : Evaluates first x ls c y) (hop : op.settles c = false)
      (hrest : Evaluates rest y.tick ls' c' z) :
      Evaluates (.chain op first rest) x (ls ++ ls') c' z
  | value {inner rest : Cascade} {result : ValueId} {x y z : Situation} {c c' : Bool}
      {ls ls' : List Leaf} (h : Evaluates inner x ls c y)
      (hrest : Evaluates rest (y.withOutcome result c) ls' c' z) :
      Evaluates (.value inner result rest) x (ls ++ ls') c' z

/-- Evaluation from left to right arrives at a leaf in some situation, behind other leaves. -/
inductive Arrives : Cascade → Situation → List Leaf → Leaf → Situation → Prop
  | test (l : Leaf) (x : Situation) : Arrives (.test l) x [] l x
  | after (l : Leaf) (rest : Cascade) (x : Situation) : Arrives (.after l rest) x [] l x
  | behind {l l' : Leaf} {rest : Cascade} {x y z : Situation} {c : Bool} {ls : List Leaf}
      (h : l.Evaluates M call name x y c) (hrest : Arrives rest y ls l' z) :
      Arrives (.after l rest) x (l :: ls) l' z
  | first {op : LogicalOp} {first rest : Cascade} {x y : Situation} {l : Leaf} {ls : List Leaf}
      (h : Arrives first x ls l y) : Arrives (.chain op first rest) x ls l y
  | goesOn {op : LogicalOp} {first rest : Cascade} {x y z : Situation} {c : Bool} {l : Leaf}
      {ls ls' : List Leaf} (h : Evaluates M call name first x ls c y) (hop : op.settles c = false)
      (hrest : Arrives rest y.tick ls' l z) : Arrives (.chain op first rest) x (ls ++ ls') l z
  | inner {inner rest : Cascade} {result : ValueId} {x y : Situation} {l : Leaf} {ls : List Leaf}
      (h : Arrives inner x ls l y) : Arrives (.value inner result rest) x ls l y
  | value {inner rest : Cascade} {result : ValueId} {x y z : Situation} {c : Bool} {l : Leaf}
      {ls ls' : List Leaf} (h : Evaluates M call name inner x ls c y)
      (hrest : Arrives rest (y.withOutcome result c) ls' l z) :
      Arrives (.value inner result rest) x (ls ++ ls') l z

end Evaluation

variable {M : Module} {call : Caller} {name : String} {t : Cascade} {x y : Situation} {c : Bool}
  {l : Leaf} {ls : List Leaf}

/-- The leaves that are evaluated are leaves of the tree, in its order, and each is evaluated
once. -/
theorem Evaluates.sublist (h : t.Evaluates M call name x ls c y) : ls.Sublist t.leaves := by
  induction h with
  | test => exact .refl _
  | after _ _ ih => exact ih.cons_cons _
  | settles _ _ ih => exact ih.trans (List.sublist_append_left _ _)
  | goesOn _ _ _ ih ih' => exact ih.append ih'
  | value _ _ ih ih' => exact ih.append ih'

/-- The leaf at which evaluation arrives stands behind the ones that have been evaluated. -/
theorem Arrives.sublist (h : t.Arrives M call name x ls l y) : (ls ++ [l]).Sublist t.leaves := by
  induction h with
  | test => exact .refl _
  | after l rest => exact (List.nil_sublist rest.leaves).cons_cons l
  | behind _ _ ih => exact ih.cons_cons _
  | first _ ih => exact ih.trans (List.sublist_append_left _ _)
  | goesOn h _ _ ih =>
      rw [List.append_assoc]
      exact h.sublist.append ih
  | inner _ ih => exact ih.trans (List.sublist_append_left _ _)
  | value h _ ih =>
      rw [List.append_assoc]
      exact h.sublist.append ih

/-- Evaluation comes to an end, unless it arrives at a leaf whose own evaluation does not. -/
theorem evaluates_or_arrives (M : Module) (call : Caller) (name : String) (t : Cascade)
    (x : Situation) : (∃ ls c y, t.Evaluates M call name x ls c y) ∨
      ∃ ls l y, t.Arrives M call name x ls l y ∧ ∀ z c, ¬ l.Evaluates M call name y z c := by
  induction t generalizing x with
  | test l =>
      by_cases hl : ∃ y c, l.Evaluates M call name x y c
      · obtain ⟨y, c, hl⟩ := hl
        exact .inl ⟨_, _, _, .test hl⟩
      · exact .inr ⟨_, _, _, .test l x, fun y c h => hl ⟨y, c, h⟩⟩
  | after l rest ih =>
      by_cases hl : ∃ y c, l.Evaluates M call name x y c
      · obtain ⟨y, c, hl⟩ := hl
        rcases ih y with ⟨ls, c', z, hrest⟩ | ⟨ls, l', z, hrest, hends⟩
        · exact .inl ⟨_, _, _, .after hl hrest⟩
        · exact .inr ⟨_, _, _, .behind hl hrest, hends⟩
      · exact .inr ⟨_, _, _, .after l rest x, fun y c h => hl ⟨y, c, h⟩⟩
  | chain op first rest ih ih' =>
      rcases ih x with ⟨ls, c, y, hfirst⟩ | ⟨ls, l, y, hfirst, hends⟩
      · cases hop : op.settles c with
        | true => exact .inl ⟨_, _, _, .settles hfirst hop⟩
        | false =>
            rcases ih' y.tick with ⟨ls', c', z, hrest⟩ | ⟨ls', l, z, hrest, hends⟩
            · exact .inl ⟨_, _, _, .goesOn hfirst hop hrest⟩
            · exact .inr ⟨_, _, _, .goesOn hfirst hop hrest, hends⟩
      · exact .inr ⟨_, _, _, .first hfirst, hends⟩
  | value inner result rest ih ih' =>
      rcases ih x with ⟨ls, c, y, hinner⟩ | ⟨ls, l, y, hinner, hends⟩
      · rcases ih' (y.withOutcome result c) with ⟨ls', c', z, hrest⟩ | ⟨ls', l, z, hrest, hends⟩
        · exact .inl ⟨_, _, _, .value hinner hrest⟩
        · exact .inr ⟨_, _, _, .value hinner hrest, hends⟩
      · exact .inr ⟨_, _, _, .inner hinner, hends⟩

end Cascade

end SsaCompiler
