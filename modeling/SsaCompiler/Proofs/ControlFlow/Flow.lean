/-
# Following a construction

A computation on a state with a module in it leads from one kind of state to another. It only
adds to the module, and something is known about its answer. Computations one after the other
lead from the first state to the last. Most of them keep a whole family of states: a request for
a constant leaves the current block where it is, whichever block that is.

Leading and keeping are classes. What is known about an answer belongs to the class, so that it
is at hand for the computations that follow.
-/

import SsaCompiler.Proofs.ControlFlow.Closed

namespace SsaCompiler

/-- A state with a module in it. -/
class HasModule (σ : Type) where
  /-- The module. -/
  moduleOf : σ → Module

instance : HasModule Module := ⟨fun m => m⟩

open HasModule

/-- A computation that leads from one kind of state to another, in a later module, and of whose
answer something is known. -/
class Leads {σ α : Type} [HasModule σ] (m : Module) (P : σ → Prop)
    (x : StateT σ (Except Crash) α) (Q : outParam (α → σ → Prop))
    (G : outParam (Module → α → Prop)) : Prop where
  run : ∀ {s a s'}, x s = .ok (a, s') → m.Extends (moduleOf s) → P s →
    (moduleOf s).Extends (moduleOf s') ∧ Q a s' ∧ G (moduleOf s') a

namespace Leads

variable {σ α β : Type} [HasModule σ] {m : Module} {P P' R : σ → Prop}
  {x y : StateT σ (Except Crash) α} {f : α → StateT σ (Except Crash) β} {Q Q' : α → σ → Prop}
  {G G' : Module → α → Prop} {S : β → σ → Prop} {H : Module → β → Prop}

/-- An answer that is given at once. -/
theorem pure {a : α} (hQ : ∀ {s}, P s → Q a s) (ha : ∀ {m'}, m.Extends m' → G m' a) :
    Leads m P (Pure.pure a) Q G where
  run h hm hP := by
    cases h
    exact ⟨.refl _, hQ hP, ha hm⟩

instance (a : α) : Leads m P (Pure.pure a) (fun _ => P) fun _ b => b = a :=
  .pure (fun hP => hP) fun _ => rfl

theorem bind [hx : Leads m P x Q G]
    (hf : ∀ a m₁, m.Extends m₁ → G m₁ a → Leads m₁ (Q a) (f a) S H) :
    Leads m P (x >>= f) S H where
  run h hm hP := by
    obtain ⟨a, s₁, hx', hf'⟩ := bind_eq_ok_iff.1 h
    obtain ⟨hm₁, hQ, ha⟩ := hx.run hx' hm hP
    obtain ⟨hm₂, hS, hb⟩ := (hf a _ (hm.trans hm₁) ha).run hf' (.refl _) hQ
    exact ⟨hm₁.trans hm₂, hS, hb⟩

/-- The same when the first computation is given with a proof of its own. -/
theorem seq (hx : Leads m P x Q G)
    (hf : ∀ a m₁, m.Extends m₁ → G m₁ a → Leads m₁ (Q a) (f a) S H) :
    Leads m P (x >>= f) S H := .bind hf

/-- A computation whose answer does not matter. -/
instance [Leads m P x (fun _ => R) G] : Leads m P (discard x) (fun _ => R) fun _ _ => True := by
  change Leads m P (x >>= fun _ => Pure.pure PUnit.unit) _ _
  exact .bind fun _ _ _ _ => .pure (fun hs => hs) fun _ => trivial

/-- A weaker claim about a computation. -/
theorem imp (hx : Leads m P' x Q' G') (hP : ∀ {s}, P s → P' s) (hQ : ∀ {a s}, Q' a s → Q a s)
    (hG : ∀ {m' a}, m.Extends m' → G' m' a → G m' a) : Leads m P x Q G where
  run h hm hs := by
    obtain ⟨hm', hQ', ha⟩ := hx.run h hm (hP hs)
    exact ⟨hm', hQ hQ', hG (hm.trans hm') ha⟩

/-- What is known of a module is known of every later one. -/
theorem mono {m' : Module} (hx : Leads m P x Q G) (hm : m.Extends m') : Leads m' P x Q G where
  run h hm' hP := hx.run h (hm.trans hm') hP

theorem ite {p : Prop} [Decidable p] (hx : Leads m P x Q G) (hy : Leads m P y Q G) :
    Leads m P (if p then x else y) Q G := by
  split <;> assumption

end Leads

/-- A computation that keeps every state of a family. -/
class Keeps {σ α ι : Type} [HasModule σ] (m : Module) (S : ι → σ → Prop)
    (x : StateT σ (Except Crash) α) (G : outParam (Module → α → Prop)) : Prop where
  leads : ∀ i, Leads m (S i) x (fun _ => S i) G

namespace Keeps

variable {σ α β ι : Type} [HasModule σ] {m : Module} {S : ι → σ → Prop}
  {x y : StateT σ (Except Crash) α} {f : α → StateT σ (Except Crash) β}
  {G G' : Module → α → Prop} {H : Module → β → Prop}

/-- An answer that is given at once. -/
theorem pure {a : α} (ha : ∀ {m'}, m.Extends m' → G m' a) : Keeps m S (Pure.pure a) G :=
  ⟨fun _ => .pure (fun hs => hs) ha⟩

instance (a : α) : Keeps m S (Pure.pure a : StateT σ (Except Crash) α) fun _ b => b = a :=
  .pure fun _ => rfl

theorem bind [hx : Keeps m S x G] (hf : ∀ a m₁, m.Extends m₁ → G m₁ a → Keeps m₁ S (f a) H) :
    Keeps m S (x >>= f) H :=
  ⟨fun i => .seq (hx.leads i) fun a m₁ hm ha => (hf a m₁ hm ha).leads i⟩

/-- The same when the first computation is given with a proof of its own. -/
theorem seq (hx : Keeps m S x G) (hf : ∀ a m₁, m.Extends m₁ → G m₁ a → Keeps m₁ S (f a) H) :
    Keeps m S (x >>= f) H := .bind hf

/-- A computation whose answer does not matter. -/
instance [hx : Keeps m S x G] : Keeps m S (discard x) fun _ _ => True where
  leads i :=
    have := hx.leads i
    inferInstance

/-- A weaker fact about the answer. -/
theorem imp (hx : Keeps m S x G) (himp : ∀ {m' a}, m.Extends m' → G m' a → G' m' a) :
    Keeps m S x G' :=
  ⟨fun i => (hx.leads i).imp id id himp⟩

theorem ite {p : Prop} [Decidable p] (hx : Keeps m S x G) (hy : Keeps m S y G) :
    Keeps m S (if p then x else y) G := by
  split <;> assumption

instance (c : Crash) : Keeps m S (throw c : StateT σ (Except Crash) α) fun _ _ => False where
  leads _ := ⟨fun h _ _ => by cases h⟩

instance (c : Checked α) : Keeps m S (liftM c : StateT σ (Except Crash) α) fun _ a => c = .ok a where
  leads _ := ⟨fun h _ hs => by
    cases c with
    | error e => cases h
    | ok a =>
        cases h
        exact ⟨.refl _, hs, rfl⟩⟩

end Keeps

end SsaCompiler
