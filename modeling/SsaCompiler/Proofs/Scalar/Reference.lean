/-
# The meaning of integer expressions

Integer expressions are literals and variables with operators between and in front of them,
casts between integer types, and chains of conditions and of comparisons. What such an
expression means is said here on integers, without words, blocks or a machine: a value is an
integer with the type it belongs to, an operation is carried out on integers and its result is
brought back to the range of the type, and an expression has no value when it divides by zero.

The two operands of an operation are brought to the wider of their types. Since a value is an
integer, that changes nothing about it: a truth value is zero or one, and every other type is
signed.
-/

import SsaCompiler.Proofs.Word
import SsaCompiler.Source.Node

namespace SsaCompiler

/-! ### Types and values -/

/-- The integer types of the source language. -/
inductive ScalarType where
  | bool | char | short | int | long
  deriving DecidableEq, Repr

namespace ScalarType

/-- The width. -/
def bits : ScalarType → Nat
  | bool => 1
  | char => 8
  | short => 16
  | int => 32
  | long => 64

/-- The type as it is written. -/
def prim : ScalarType → PrimType
  | bool => .bool
  | char => .char
  | short => .short
  | int => .int
  | long => .long

/-- The wider of two types. -/
def wider (t u : ScalarType) : ScalarType := if u.bits ≤ t.bits then t else u

/-- Types of one width are the same. -/
theorem bits_injective {t u : ScalarType} (h : t.bits = u.bits) : t = u := by
  cases t <;> cases u <;> first | rfl | cases h

/-- Every width divides the size of a word. -/
theorem bits_dvd (t : ScalarType) : t.bits ∣ 64 := by cases t <;> decide

/-- No width exceeds the size of a word. -/
theorem bits_le (t : ScalarType) : t.bits ≤ 64 := Nat.le_of_dvd (by decide) t.bits_dvd

/-- Every width has a bit. -/
theorem bits_pos (t : ScalarType) : 0 < t.bits := by cases t <;> decide

end ScalarType

/-- An integer with the type that it belongs to. -/
structure Scalar where
  /-- The type. -/
  ty : ScalarType
  /-- The integer. -/
  value : Int
  deriving DecidableEq, Repr

namespace Scalar

/-- The value in the range of a type that an integer is brought to. -/
def wrap (ty : ScalarType) (x : Int) : Scalar := ⟨ty, wrapTo ty.bits x⟩

/-- A truth value. -/
def ofBool (b : Bool) : Scalar := ⟨.bool, if b then 1 else 0⟩

/-- Whether a value counts as true. -/
def truth (x : Scalar) : Bool := x.value ≠ 0

@[simp]
theorem truth_ofBool (b : Bool) : (ofBool b).truth = b := by cases b <;> rfl

/-- A value that is in the range of its type. -/
def InRange (x : Scalar) : Prop := wrapTo x.ty.bits x.value = x.value

/-- Bringing a value to a type: to a truth value by asking whether it is zero, to any other
type by its range. -/
def cast (ty : ScalarType) (x : Scalar) : Scalar :=
  if ty = .bool then ofBool x.truth else wrap ty x.value

/-- The result of an operation at a width, before it is brought to the range; none for a
division by zero. A shift moves by the remainder of its amount. -/
def arithmetic (op : BinaryOp) (bits : Nat) (a b : Int) : Option Int :=
  match op with
  | .add => some (a + b)
  | .sub => some (a - b)
  | .mul => some (a * b)
  | .div => if b = 0 then none else some (a.tdiv b)
  | .rem => if b = 0 then none else some (a.tmod b)
  | .bitAnd => some (BitVec.ofInt bits a &&& BitVec.ofInt bits b).toInt
  | .bitOr => some (BitVec.ofInt bits a ||| BitVec.ofInt bits b).toInt
  | .bitXor => some (BitVec.ofInt bits a ^^^ BitVec.ofInt bits b).toInt
  | .shl => some (a * 2 ^ (b % bits).toNat)
  | .shr => some (a / 2 ^ (b % bits).toNat)
  | .pow | .eq | .ne | .lt | .le | .gt | .ge | .range => none

/-- Whether a comparison holds. -/
def compares (op : BinaryOp) (a b : Int) : Bool :=
  match op with
  | .eq => a = b
  | .ne => a ≠ b
  | .lt => a < b
  | .le => a ≤ b
  | .gt => a > b
  | .ge => a ≥ b
  | _ => false

/-- The result of an operator on two values. -/
def binary (op : BinaryOp) (x y : Scalar) : Option Scalar :=
  let ty := x.ty.wider y.ty
  if op.isComparison then some (ofBool (compares op x.value y.value))
  else (arithmetic op ty.bits x.value y.value).map (wrap ty)

/-- Comparisons have a truth value, and other operators a value of the wider type. -/
theorem ty_of_binary {op : BinaryOp} {x y z : Scalar} (h : binary op x y = some z) :
    z.ty = if op.isComparison then .bool else x.ty.wider y.ty := by
  unfold binary at h
  split at h
  · cases h
    rw [if_pos ‹_›]
    rfl
  · obtain ⟨w, -, rfl⟩ := Option.map_eq_some_iff.1 h
    rw [if_neg ‹_›]
    rfl

/-- The result of an operator in front of a value. -/
def unary (op : UnaryOp) (x : Scalar) : Scalar :=
  match op with
  | .neg => wrap x.ty (-x.value)
  | .not => ofBool (!x.truth)
  | .bitNot => wrap x.ty (-x.value - 1)
  | .deref | .addressOf => x

end Scalar

/-- The operators between integers. -/
def BinaryOp.isScalar : BinaryOp → Bool
  | .pow | .range => false
  | _ => true

/-- The operators in front of integers. -/
def UnaryOp.isScalar : UnaryOp → Bool
  | .neg | .not | .bitNot => true
  | .deref | .addressOf => false

/-! ### Expressions -/

mutual

/-- Integer expressions. -/
inductive Expr where
  | int (value : Int64)
  | char (value : UInt8)
  | bool (value : Bool)
  | var (name : Name)
  | unary (op : UnaryOp) (operand : Expr)
  | binary (op : BinaryOp) (lhs rhs : Expr)
  | cast (ty : ScalarType) (operand : Expr)
  /-- A chain of terms that stops as soon as the outcome is settled. -/
  | logical (op : LogicalOp) (terms : Terms)
  /-- A chain of comparisons between neighbours. -/
  | comparison (first : Expr) (links : Links)

/-- The terms of a chain. -/
inductive Terms where
  | last (term : Expr)
  | cons (term : Expr) (rest : Terms)

/-- The comparisons of a chain behind its first operand. -/
inductive Links where
  | last (op : BinaryOp) (operand : Expr)
  | cons (op : BinaryOp) (operand : Expr) (rest : Links)

end

/-- The values of the variables. -/
abbrev Valuation : Type := Name → Scalar

mutual

/-- The value of an expression, none when it divides by zero. -/
def Expr.eval (ρ : Valuation) : Expr → Option Scalar
  | .int v => some ⟨if -2147483648 ≤ v.toInt ∧ v.toInt ≤ 2147483647 then .int else .long, v.toInt⟩
  | .char c => some (.wrap .char c.toNat)
  | .bool b => some (.ofBool b)
  | .var x => some (ρ x)
  | .unary op e => (e.eval ρ).map (Scalar.unary op)
  | .binary op l r => do
    let x ← l.eval ρ
    let y ← r.eval ρ
    Scalar.binary op x y
  | .cast ty e => (e.eval ρ).map (Scalar.cast ty)
  | .logical op terms => (terms.holds ρ op).map Scalar.ofBool
  | .comparison first links => do
    let x ← first.eval ρ
    let b ← links.hold ρ x
    return Scalar.ofBool b

/-- Whether a chain holds. A later term only counts when the earlier ones leave the outcome
open. -/
def Terms.holds (ρ : Valuation) (op : LogicalOp) : Terms → Option Bool
  | .last e => (e.eval ρ).map Scalar.truth
  | .cons e rest => do
    let x ← e.eval ρ
    match op, x.truth with
    | .and, false => return false
    | .or, true => return true
    | .and, true | .or, false => rest.holds ρ op

/-- Whether all comparisons of a chain hold, from a value on. The first that does not
decides. -/
def Links.hold (ρ : Valuation) (x : Scalar) : Links → Option Bool
  | .last op e => do
    let y ← e.eval ρ
    let z ← Scalar.binary op x y
    return z.truth
  | .cons op e rest => do
    let y ← e.eval ρ
    let z ← Scalar.binary op x y
    if z.truth then rest.hold ρ y else return false

end

/-- Whether a term with a truth value settles the outcome of a chain. -/
def LogicalOp.settles : LogicalOp → Bool → Bool
  | and, c => !c
  | or, c => c

/-- The first term settles the outcome of a chain, or the rest of the chain decides. -/
theorem Terms.holds_cons (ρ : Valuation) (op : LogicalOp) (e : Expr) (rest : Terms) :
    (Terms.cons e rest).holds ρ op = ((e.eval ρ).map Scalar.truth).bind fun c =>
      if op.settles c then some c else rest.holds ρ op := by
  rw [Terms.holds]
  cases e.eval ρ with
  | none => rfl
  | some x => cases op <;> cases hx : x.truth <;> simp [hx, LogicalOp.settles]

/-! ### Expressions in program trees -/

mutual

/-- A node of a program tree is a given expression over the variables of a scope, wherever it
comes from and whatever its number is. -/
def Expr.Spelled (scope : Name → Prop) : Expr → Node → Prop
  | .int v, node => node.kind = .intLit v
  | .char c, node => node.kind = .charLit c
  | .bool b, node => node.kind = .boolLit b
  | .var x, node => scope x ∧ node.kind = .ident x
  | .unary op e, node => op.isScalar = true ∧
      ∃ child, node.kind = .unary op (some child) ∧ e.Spelled scope child
  | .binary op l r, node => op.isScalar = true ∧
      ∃ left right, node.kind = .binary op (some left) (some right) ∧ l.Spelled scope left ∧
        r.Spelled scope right
  | .cast ty e, node => ∃ child, node.kind = .cast (some child) (.prim ty.prim) ∧
      e.Spelled scope child
  | .logical op terms, node => ∃ children, node.kind = .logical op children ∧
      terms.Spelled scope children
  | .comparison first links, node => ∃ child rest,
      node.kind = .comparison (some child) rest ∧ first.Spelled scope child ∧
        links.Spelled scope rest

/-- The children of a chain are given terms. -/
def Terms.Spelled (scope : Name → Prop) : Terms → List (Option Node) → Prop
  | .last e, children => ∃ child, children = [some child] ∧ e.Spelled scope child
  | .cons e rest, children => ∃ child others, children = some child :: others ∧
      e.Spelled scope child ∧ rest.Spelled scope others

/-- The children of a chain are given comparisons. -/
def Links.Spelled (scope : Name → Prop) : Links → List (BinaryOp × Option Node) → Prop
  | .last op e, children => op.isScalar = true ∧
      ∃ child, children = [(op, some child)] ∧ e.Spelled scope child
  | .cons op e rest, children => op.isScalar = true ∧
      ∃ child others, children = (op, some child) :: others ∧ e.Spelled scope child ∧
        rest.Spelled scope others

end

/-- The expressions that are chains. -/
def Expr.isChain : Expr → Bool
  | .logical .. | .comparison .. => true
  | _ => false

/-- Only chains are spelled as chains. -/
theorem Expr.Spelled.kind_ne {scope : Name → Prop} {e : Expr} {node : Node}
    (h : e.Spelled scope node) (hchain : e.isChain = false) :
    (∀ op terms, node.kind ≠ .logical op terms) ∧
      ∀ first rest, node.kind ≠ .comparison first rest := by
  cases e with
  | int v => simp [show node.kind = _ from h]
  | char c => simp [show node.kind = _ from h]
  | bool c => simp [show node.kind = _ from h]
  | var x =>
      obtain ⟨-, hkind⟩ := h
      simp [hkind]
  | unary op e =>
      obtain ⟨-, child, hkind, -⟩ := h
      simp [hkind]
  | binary op l r =>
      obtain ⟨-, left, right, hkind, -⟩ := h
      simp [hkind]
  | cast ty e =>
      obtain ⟨child, hkind, -⟩ := h
      simp [hkind]
  | logical op terms => cases hchain
  | comparison first links => cases hchain

end SsaCompiler
