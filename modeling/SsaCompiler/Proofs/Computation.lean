/-
# Computations and their answers

Requests to a module and lowering are state computations that may crash; the machine runs
computations that keep their state when they stop. A sequence of two such computations
answers exactly when both do, and the lemmas here take a sequence apart, or put its answer
together, without unfolding the monads again in every proof.
-/

import SsaCompiler.Ir.Builder
import SsaCompiler.Machine.Instruction

namespace SsaCompiler

/-! ### Answers -/

section Answers

variable {α β ε : Type} {x : Except ε α} {k : α → Except ε β}

/-- A sequence answers exactly when its parts do. -/
theorem answer_bind_eq_ok_iff {b : β} : x >>= k = .ok b ↔ ∃ a, x = .ok a ∧ k a = .ok b := by
  cases x <;> simp [bind, Except.bind]

/-- A sequence crashes exactly when one of its parts does. -/
theorem answer_bind_eq_error_iff {e : ε} :
    x >>= k = .error e ↔ x = .error e ∨ ∃ a, x = .ok a ∧ k a = .error e := by
  cases x <;> simp [bind, Except.bind]

end Answers

/-! ### Computations that may crash -/

section StateComputations

variable {σ ε α β : Type}

/-- Nothing happens before an answer that is given at once. -/
@[simp]
theorem pure_apply (a : α) (s : σ) : (pure a : StateT σ (Except ε) α) s = .ok (a, s) := rfl

/-- A sequence continues in the state that its first part leaves behind. -/
theorem bind_of_ok {x : StateT σ (Except ε) α} {f : α → StateT σ (Except ε) β} {s s' : σ} {a : α}
    (hx : x s = .ok (a, s')) : (x >>= f) s = f a s' := by
  change (x s >>= fun p => f p.1 p.2) = f a s'
  rw [hx]
  rfl

/-- A sequence crashes when its first part does. -/
theorem bind_of_error {x : StateT σ (Except ε) α} {f : α → StateT σ (Except ε) β} {s : σ} {e : ε}
    (hx : x s = .error e) : (x >>= f) s = .error e := by
  change (x s >>= fun p => f p.1 p.2) = .error e
  rw [hx]
  rfl

/-- A sequence answers exactly when its first part answers and the rest does, from the state
that the first part leaves behind. -/
theorem bind_eq_ok_iff {x : StateT σ (Except ε) α} {f : α → StateT σ (Except ε) β} {s : σ}
    {r : β × σ} : (x >>= f) s = .ok r ↔ ∃ a s', x s = .ok (a, s') ∧ f a s' = .ok r := by
  cases hx : x s with
  | error e => simp [bind_of_error hx]
  | ok p =>
      obtain ⟨a, s'⟩ := p
      rw [bind_of_ok hx]
      constructor
      · intro hf
        exact ⟨a, s', rfl, hf⟩
      · rintro ⟨a', s'', heq, hf⟩
        obtain ⟨rfl, rfl⟩ := Prod.mk.inj (Except.ok.inj heq)
        exact hf

@[simp]
theorem get_apply (s : σ) : (get : StateT σ (Except ε) σ) s = .ok (s, s) := rfl

@[simp]
theorem modify_apply (f : σ → σ) (s : σ) :
    (modify f : StateT σ (Except ε) PUnit) s = .ok (⟨⟩, f s) := rfl

/-- A change of the state with an answer. -/
@[simp]
theorem modifyGet_apply (f : σ → α × σ) (s : σ) :
    (modifyGet f : StateT σ (Except ε) α) s = .ok (f s) := rfl

/-- An answer that depends on nothing leaves the state as it is. -/
@[simp]
theorem liftM_ok_apply (a : α) (s : σ) :
    (liftM (.ok a : Except ε α) : StateT σ (Except ε) α) s = .ok (a, s) := rfl

end StateComputations

/-- An answer is all that is left of a computation when its crashes are dropped. -/
theorem mem_toOption_iff {ε α : Type} {x : Except ε α} {a : α} :
    a ∈ x.toOption ↔ x = .ok a := by
  cases x <;> simp [Except.toOption]

/-- An entry that is there stays where it is when another one is added. -/
theorem Checked.at_push {α : Type} {xs : Array α} {i : Nat} {x : α} (y : α)
    (hx : Checked.at xs i = .ok x) : Checked.at (xs.push y) i = .ok x := by
  rw [Checked.at_eq_ok_iff] at hx ⊢
  obtain ⟨hlt, -⟩ := Array.getElem?_eq_some_iff.1 hx
  rwa [Array.getElem?_push_lt hlt, ← Array.getElem?_eq_getElem hlt]

/-- The entry that is added last is found behind the others. -/
theorem Checked.at_push_size {α : Type} (xs : Array α) (y : α) :
    Checked.at (xs.push y) xs.size = .ok y := by
  rw [Checked.at_eq_ok_iff]
  exact Array.getElem?_push_size

namespace Build

variable {α : Type}

/-- A question leaves the module as it is. -/
theorem ask_of_ok {q : Module → Checked α} {m : Module} {a : α} (hq : q m = .ok a) :
    ask q m = .ok (a, m) := by
  change (liftM (q m) : Build α) m = _
  rw [hq]
  rfl

/-- A question is answered only by what it asks for. -/
theorem ask_eq_ok_iff {q : Module → Checked α} {m m' : Module} {a : α} :
    ask q m = .ok (a, m') ↔ q m = .ok a ∧ m' = m := by
  constructor
  · intro hask
    change (liftM (q m) : Build α) m = _ at hask
    cases hq : q m with
    | error c =>
        rw [hq] at hask
        cases hask
    | ok b =>
        rw [hq] at hask
        cases hask
        exact ⟨rfl, rfl⟩
  · rintro ⟨hq, rfl⟩
    exact ask_of_ok hq

/-- The type of a value that is known. -/
theorem typeOf_of_ok {m : Module} {v : ValueId} {d : ValueData} (hv : m.value v = .ok d) :
    typeOf v m = .ok (d.ty, m) := by
  refine ask_of_ok ?_
  simp only [Module.typeOf, hv]
  rfl

/-- What a type is that is in the table. -/
theorem typeAt_of_ok {m : Module} {ty : TypeId} {t : IrType} (ht : m.types.get ty = .ok t) :
    typeAt ty m = .ok (t, m) := ask_of_ok ht

end Build

/-! ### Computations of the machine -/

namespace Exec

variable {α β : Type}

/-- Nothing happens before an answer that is given at once. -/
@[simp]
theorem pure_run (a : α) (s : MachineState) : (pure a : Exec α) s = .ok a s := rfl

/-- A run continues in the state that its first part leaves behind. -/
theorem bind_of_ok {x : Exec α} {f : α → Exec β} {s s' : MachineState} {a : α}
    (hx : x s = .ok a s') : (x >>= f) s = f a s' := by
  change EStateM.bind x f s = f a s'
  simp only [EStateM.bind, hx]

/-- A run stops where its first part stops. -/
theorem bind_of_error {x : Exec α} {f : α → Exec β} {s s' : MachineState} {e : Stop}
    (hx : x s = .error e s') : (x >>= f) s = .error e s' := by
  change EStateM.bind x f s = .error e s'
  simp only [EStateM.bind, hx]

theorem liftM_checked_ok (a : α) (s : MachineState) :
    (liftM (.ok a : Checked α) : Exec α) s = .ok a s := rfl

end Exec

end SsaCompiler
