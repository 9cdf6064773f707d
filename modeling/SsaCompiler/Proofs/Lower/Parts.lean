/-
# The parts of a node

The nodes that are lowered for a node are not quite its children. A chain of terms, or of
comparisons, that is tested as a condition is not lowered as a node: its terms are tested in its
place. The bodies of functions and methods are lowered for their declarations, and the body of a
template for each of its instances, in a walk of its own.

In a tree nothing is shared: no node is reached in two ways. This can be seen from the numbers of
the nodes.
-/

import Mathlib.Data.List.Pairwise
import SsaCompiler.Proofs.Lower.Composed.Node

namespace SsaCompiler

mutual

/-- The nodes that are lowered to test a condition. -/
def Node.tested : Option Node → List Node
  | some node => node.tests
  | none => []
termination_by structural cond => cond

/-- The nodes that are lowered to test a node. -/
def Node.tests : Node → List Node
  | ⟨id, span, kind⟩ => testedAs ⟨id, span, kind⟩ kind
termination_by structural node => node

/-- A chain is not lowered as a node of its own when it is tested: its terms are, one after the
other. -/
def Node.testedAs (node : Node) : NodeKind Node → List Node
  | .logical _ terms => testedTerms terms
  | .comparison first rest => first.toList ++ rest.flatMap fun step => step.2.toList
  | _ => [node]
termination_by structural kind => kind

/-- The nodes that are lowered to test the terms of a chain. -/
def Node.testedTerms : List (Option Node) → List Node
  | [] => []
  | term :: rest => tested term ++ testedTerms rest
termination_by structural terms => terms

end

/-- The nodes that are lowered for a node of a kind, and the bodies of the callables that it
declares. -/
def NodeKind.parts : NodeKind Node → List Node
  | binary _ lhs rhs => lhs.toList ++ rhs.toList
  | logical _ terms => Node.testedTerms terms
  | comparison first rest => first.toList ++ rest.flatMap fun step => step.2.toList
  | unary _ operand => operand.toList
  | assign _ target value => target.toList ++ value.toList
  | call _ args => args.flatMap Option.toList
  | methodCall receiver _ args => receiver.toList ++ args.flatMap Option.toList
  | member base _ => base.toList
  | index base offset => base.toList ++ offset.toList
  | cast expr _ => expr.toList
  | construct _ args _ => args.flatMap Option.toList
  | delete operand => operand.toList
  | debugPrint expr => expr.toList
  | print args => args.flatMap Option.toList
  | throw value => value.toList
  | tryCatch body catches => body.toList ++ catches.flatMap fun clause => clause.body.toList
  | varDecl _ vars => vars.flatMap fun var => var.init.toList
  | ifElse cond thenBranch elseBranch =>
    Node.tested cond ++ (thenBranch.toList ++ elseBranch.toList)
  | whileLoop cond body => Node.tested cond ++ body.toList
  | forLoop init cond step body =>
    init.toList ++ (Node.tested cond ++ (body.toList ++ step.toList))
  | switch scrutinee cases default _ =>
    scrutinee.toList ++ ((cases.flatMap fun c => c.value.toList) ++
      ((cases.flatMap fun c => c.body.toList) ++ default.toList))
  | returnStmt value => value.toList
  | block stmts => stmts.flatMap Option.toList
  | function decl => decl.body.toList
  | object decl => decl.methods.flatMap fun method => (method.bind Node.body?).toList
  | operator decl => decl.body.toList
  | module items => items.flatMap Option.toList
  | _ => []

namespace Node

/-- The nodes that are lowered for a node. -/
def parts (n : Node) : List Node := n.kind.parts

/-- The callables that a node declares. -/
def callables (n : Node) : List Node :=
  match n.kind with
  | .function _ | .operator _ => [n]
  | .object decl => decl.methods.flatMap Option.toList
  | _ => []

/-- A node and the nodes that are lowered for it, directly or not. -/
inductive Reaches : Node → Node → Prop where
  | refl (n : Node) : n.Reaches n
  | part {n p m : Node} (hp : p ∈ n.parts) (h : p.Reaches m) : n.Reaches m

/-- Nothing is reached from both of two nodes. -/
def Apart (a b : Node) : Prop := ∀ x y, a.Reaches x → b.Reaches y → x.id ≠ y.id

/-- A tree in which no node stands in two places. The bodies of its callables are known by their
numbers. -/
structure IsTree (bodies : Nat → Option Node) (n : Node) : Prop where
  apart : ∀ m, n.Reaches m → m.parts.Pairwise Apart
  below : ∀ m, n.Reaches m → ∀ p ∈ m.parts, ∀ q, p.Reaches q → q.id ≠ m.id
  bodies : ∀ m, n.Reaches m → ∀ f ∈ m.callables, bodies f.id = f.body?

variable {bodies : Nat → Option Node} {n m k a b : Node}

theorem Reaches.trans (h : n.Reaches m) (h' : m.Reaches k) : n.Reaches k := by
  induction h with
  | refl => exact h'
  | part hp _ ih => exact .part hp (ih h')

theorem Apart.symm (h : a.Apart b) : b.Apart a := fun x y hx hy heq => h y x hy hx heq.symm

instance : Std.Symm Apart := ⟨fun _ _ => Apart.symm⟩

/-- What stands in a tree is a tree. -/
theorem IsTree.of_reaches (h : n.IsTree bodies) (hm : n.Reaches m) : m.IsTree bodies where
  apart k hk := h.apart k (hm.trans hk)
  below k hk := h.below k (hm.trans hk)
  bodies k hk := h.bodies k (hm.trans hk)

/-! ### Trees in which nothing is shared -/

/-- No node stands in two places of a tree, and no number belongs to two callables. -/
structure IsUnshared (n : Node) : Prop where
  apart : ∀ m, n.Reaches m → m.parts.Pairwise Apart
  below : ∀ m, n.Reaches m → ∀ p ∈ m.parts, ∀ q, p.Reaches q → q.id ≠ m.id
  callables : ∀ m k : Node, n.Reaches m → n.Reaches k →
    ∀ f ∈ m.callables, ∀ g ∈ k.callables, f.id = g.id → f = g

/-- The bodies of the callables of a tree are known by their numbers. -/
theorem IsUnshared.exists_isTree (h : n.IsUnshared) : ∃ bodies, n.IsTree bodies := by
  classical
  let IsNumbered (i : Nat) (f : Node) : Prop := f.id = i ∧ ∃ m, n.Reaches m ∧ f ∈ m.callables
  let bodies (i : Nat) : Option Node :=
    if hi : ∃ f, IsNumbered i f then hi.choose.body? else none
  refine ⟨bodies, h.apart, h.below, fun m hm f hf => ?_⟩
  have hi : ∃ g, IsNumbered f.id g := ⟨f, rfl, m, hm, hf⟩
  obtain ⟨hid, k, hk, hg⟩ := hi.choose_spec
  have hsame : hi.choose = f := h.callables k m hk hm _ hg f hf hid
  simp only [bodies, dif_pos hi, hsame]

/-! ### Looking at all nodes of a tree -/

/-- The numbers that belong to a node: its own, and those of the methods of an object. -/
def numbers (n : Node) : List Nat :=
  match n.kind with
  | .object decl => n.id :: (decl.methods.flatMap Option.toList).map Node.id
  | _ => [n.id]

/-- The numbers of the nodes that are at most so many steps below a node, in the order of the
tree. -/
def numbersWithin : Nat → Node → List Nat
  | 0, n => n.numbers
  | d + 1, n => n.numbers ++ n.parts.flatMap (numbersWithin d)

/-- No node is more than so many steps below a node. -/
def IsWithin : Nat → Node → Prop
  | 0, n => n.parts = []
  | d + 1, n => ∀ p ∈ n.parts, p.IsWithin d

instance decidableIsWithin : (d : Nat) → (n : Node) → Decidable (n.IsWithin d)
  | 0, n => decidable_of_iff (n.parts.isEmpty = true) List.isEmpty_iff
  | d + 1, n =>
    have := decidableIsWithin d
    inferInstanceAs (Decidable (∀ p ∈ n.parts, p.IsWithin d))

variable {d : Nat}

theorem id_mem_numbers (n : Node) : n.id ∈ n.numbers := by
  unfold numbers
  split <;> simp

/-- The callables of a node are known by its numbers. -/
theorem id_mem_numbers_of_callables {f : Node} (h : f ∈ n.callables) : f.id ∈ n.numbers := by
  obtain ⟨id, span, kind⟩ := n
  cases kind with
  | function | operator =>
      cases List.mem_singleton.1 h
      exact .head _
  | object decl => exact .tail _ (List.mem_map_of_mem h)
  | _ => cases h

/-- No two callables of a node have one number if no two of its numbers are the same. -/
theorem callables_injOn {f g : Node} (hnodup : n.numbers.Nodup) (hf : f ∈ n.callables)
    (hg : g ∈ n.callables) (h : f.id = g.id) : f = g := by
  obtain ⟨id, span, kind⟩ := n
  cases kind with
  | function | operator => rw [List.mem_singleton.1 hf, List.mem_singleton.1 hg]
  | object decl => exact List.inj_on_of_nodup_map (List.nodup_cons.1 hnodup).2 hf hg h
  | _ => cases hf

theorem IsWithin.of_part {p : Node} (h : n.IsWithin d) (hp : p ∈ n.parts) :
    ∃ d', d = d' + 1 ∧ p.IsWithin d' := by
  cases d with
  | zero =>
      rw [show n.parts = [] from h] at hp
      cases hp
  | succ d => exact ⟨d, rfl, h p hp⟩

/-- All nodes of a tree are looked at. -/
theorem numbers_subset (h : n.Reaches m) (hd : n.IsWithin d) : m.numbers ⊆ n.numbersWithin d := by
  induction h generalizing d with
  | refl n =>
      cases d with
      | zero => exact List.Subset.refl _
      | succ d => exact List.subset_append_left _ _
  | part hp _ ih =>
      obtain ⟨d, rfl, hd'⟩ := hd.of_part hp
      exact fun i hi => List.mem_append_right _ (List.mem_flatMap.2 ⟨_, hp, ih hd' hi⟩)

/-- No number of a node stands in what is below it, and none in two of its parts. -/
theorem nodup_numbersWithin (h : (n.numbersWithin (d + 1)).Nodup) :
    n.numbers.Nodup ∧ (∀ p ∈ n.parts, (p.numbersWithin d).Nodup) ∧
      (∀ p ∈ n.parts, n.numbers.Disjoint (p.numbersWithin d)) ∧
      n.parts.Pairwise fun p q => (p.numbersWithin d).Disjoint (q.numbersWithin d) := by
  obtain ⟨hown, hparts, hdisjoint⟩ := List.nodup_append'.1 h
  obtain ⟨heach, hpairwise⟩ := List.nodup_flatMap.1 hparts
  refine ⟨hown, heach, fun p hp i hi hi' => ?_, hpairwise⟩
  exact hdisjoint hi (List.mem_flatMap.2 ⟨p, hp, hi'⟩)

/-- Below every node of a tree no number stands in two places if none does in the tree. -/
theorem exists_nodup (hm : n.Reaches m) (hd : n.IsWithin d) (h : (n.numbersWithin d).Nodup) :
    ∃ d, m.IsWithin d ∧ (m.numbersWithin d).Nodup := by
  induction hm generalizing d with
  | refl => exact ⟨d, hd, h⟩
  | part hp _ ih =>
      obtain ⟨d, rfl, hd'⟩ := hd.of_part hp
      exact ih hd' ((nodup_numbersWithin h).2.1 _ hp)

/-- A number belongs to one node then. -/
theorem eq_of_mem_numbers (hd : n.IsWithin d) (h : (n.numbersWithin d).Nodup) (hm : n.Reaches m)
    (hk : n.Reaches k) {i : Nat} (hi : i ∈ m.numbers) (hi' : i ∈ k.numbers) : m = k := by
  induction hm generalizing d with
  | refl n =>
      cases hk with
      | refl => rfl
      | part hp hk =>
          obtain ⟨d, rfl, hd'⟩ := hd.of_part hp
          exact ((nodup_numbersWithin h).2.2.1 _ hp hi (numbers_subset hk hd' hi')).elim
  | @part n p m hp hm ih =>
      obtain ⟨d, rfl, hd'⟩ := hd.of_part hp
      obtain ⟨-, heach, hbelow, hapart⟩ := nodup_numbersWithin h
      cases hk with
      | refl => exact (hbelow p hp hi' (numbers_subset hm hd' hi)).elim
      | @part _ q _ hq hk =>
          by_cases hsame : p = q
          · exact ih hd' (heach p hp) (hsame ▸ hk) hi
          · have : Std.Symm fun p q : Node => (p.numbersWithin d).Disjoint (q.numbersWithin d) :=
              ⟨fun _ _ => List.Disjoint.symm⟩
            have hdisjoint := hapart.forall hp hq hsame
            exact (hdisjoint (numbers_subset hm hd' hi) (numbers_subset hk (hd q hq) hi')).elim

/-- Nothing is shared in a tree in which no number stands in two places. -/
theorem isUnshared_of_nodup (hd : n.IsWithin d) (h : (n.numbersWithin d).Nodup) : n.IsUnshared where
  apart m hm := by
    obtain ⟨d, hd, h⟩ := exists_nodup hm hd h
    cases d with
    | zero =>
        rw [show m.parts = [] from hd]
        exact .nil
    | succ d =>
        refine (nodup_numbersWithin h).2.2.2.imp_of_mem fun hp hq hapart x y hx hy heq => ?_
        have hx := numbers_subset hx (hd _ hp) x.id_mem_numbers
        have hy := numbers_subset hy (hd _ hq) y.id_mem_numbers
        exact hapart hx (heq ▸ hy)
  below m hm p hp q hq heq := by
    obtain ⟨d, hd, h⟩ := exists_nodup hm hd h
    obtain ⟨d, rfl, hd'⟩ := hd.of_part hp
    have hq := numbers_subset hq hd' q.id_mem_numbers
    exact (nodup_numbersWithin h).2.2.1 p hp m.id_mem_numbers (heq ▸ hq)
  callables m k hm hk f hf g hg heq := by
    have hf' := id_mem_numbers_of_callables hf
    have hg' := id_mem_numbers_of_callables hg
    cases eq_of_mem_numbers hd h hm hk hf' (heq ▸ hg')
    obtain ⟨d, hd, h⟩ := exists_nodup hm hd h
    refine callables_injOn ?_ hf hg heq
    cases d with
    | zero => exact h
    | succ d => exact (nodup_numbersWithin h).1

end Node

end SsaCompiler
