/-
# Reports do not steer lowering

Two runs of the same lowering that differ in nothing but the queue to which they report go side by
side: they answer the same, they change the tables, the names, the module and the walk in the same
way, and they make the same reports, but for one kind. Whether a part without a value is reported
depends on how many reports the queue has counted in the meantime. So whatever holds between the two
queues at the beginning holds at the end, if it is kept by a report to both of them and by the
report of a part without a value.
-/

import SsaCompiler.Proofs.Diagnostic.Queue
import SsaCompiler.Proofs.Lower.Composed

namespace SsaCompiler

/-- The report of a part that has no value. -/
def Diagnostic.noValue (span : Span) : Diagnostic :=
  ⟨.typeMismatch, "expression has no value", span⟩

namespace DiagnosticQueue

/-- What becomes of a queue behind a part that has no value: that is reported, unless there have been
reports since an earlier state of the queue. -/
def complain (before q : DiagnosticQueue) (span : Span) : DiagnosticQueue :=
  if q.errorCount = before.errorCount then (q.push (.noValue span)).2 else q

theorem later_complain (before q : DiagnosticQueue) (span : Span) :
    q.Later (before.complain q span) := by
  unfold complain
  split
  · exact q.later_push _
  · exact .refl q

/-- A relation between two queues that is kept when the same lowering reports to both of them. -/
structure IsKept (ρ : DiagnosticQueue → DiagnosticQueue → Prop) : Prop where
  push : ∀ {p q d}, ρ p q → ρ (p.push d).2 (q.push d).2
  complain : ∀ {p q p' q' span}, ρ p q → p.Later p' → q.Later q' → ρ p' q' →
    ρ (p.complain p' span) (q.complain q' span)

end DiagnosticQueue

/-- Two results of lowering that agree in everything but the reports. -/
inductive Lowering.Agree (ρ : DiagnosticQueue → DiagnosticQueue → Prop) (p q : DiagnosticQueue)
    {α : Type} : Checked (α × Lowering) → Checked (α × Lowering) → Prop where
  | crash (c : Crash) : Agree ρ p q (.error c) (.error c)
  | ok {a : α} {s : Lowering} {p' q' : DiagnosticQueue} (h : ρ p' q') (hp : p.Later p')
      (hq : q.Later q') : Agree ρ p q (.ok (a, s.withReports p')) (.ok (a, s.withReports q'))

namespace Lowering.Agree

variable {α β : Type} {ρ : DiagnosticQueue → DiagnosticQueue → Prop} {p q : DiagnosticQueue}

/-- What follows two results that agree agrees if it does so from states that agree. -/
theorem bind {u v : Checked (α × Lowering)} {f g : α × Lowering → Checked (β × Lowering)}
    (h : Agree ρ p q u v)
    (hf : ∀ {a p' q'} {s : Lowering}, ρ p' q' → p.Later p' → q.Later q' →
      Agree ρ p' q' (f (a, s.withReports p')) (g (a, s.withReports q'))) :
    Agree ρ p q (u >>= f) (v >>= g) := by
  cases h with
  | crash c => exact .crash c
  | @ok a s p' q' h hp hq =>
      have hrest := hf h hp hq (a := a) (s := s)
      change Agree ρ p q (f (a, s.withReports p')) (g (a, s.withReports q'))
      generalize f (a, s.withReports p') = u at hrest ⊢
      generalize g (a, s.withReports q') = v at hrest ⊢
      cases hrest with
      | crash c => exact .crash c
      | ok h' hp' hq' => exact .ok h' (hp.trans hp') (hq.trans hq')

end Lowering.Agree

namespace Lower

variable {α β : Type} {ρ : DiagnosticQueue → DiagnosticQueue → Prop}

/-- A computation that does the same, whichever of two related queues it reports to. -/
structure Parallel (ρ : DiagnosticQueue → DiagnosticQueue → Prop) (x : Lower α) : Prop where
  agree : ∀ {s : Lowering} {p q : DiagnosticQueue}, ρ p q →
    Lowering.Agree ρ p q (x (s.withReports p)) (x (s.withReports q))

/-- A report goes to the queue. -/
theorem report_withReports (kind : DiagnosticKind) (message : String) (span : Span) (s : Lowering)
    (q : DiagnosticQueue) : report kind message span (s.withReports q) =
      .ok ((), s.withReports (q.push ⟨kind, message, span⟩).2) := by
  unfold Lowering.withReports Context.withReports
  rw [(q.later_push ⟨kind, message, span⟩).config]
  rfl

/-- What becomes of the queue is what becomes of a queue behind a part that has no value. -/
theorem unlessReported_withReports (before : DiagnosticQueue) (span : Span) (s : Lowering)
    (q : DiagnosticQueue) : unlessReported before.errorCount span (s.withReports q) =
      .ok (none, s.withReports (if s.pass.fatal.isSome then q else before.complain q span)) := by
  unfold unlessReported
  rw [bind_of_ok (errorCount_apply _), bind_of_ok (isAbandoned_apply _)]
  change (if q.errorCount = before.errorCount ∧ s.pass.fatal.isSome = false then _ else _ :
    Lower (Option Operand)) _ = _
  unfold DiagnosticQueue.complain
  by_cases hcount : q.errorCount = before.errorCount
  · cases hfatal : s.pass.fatal with
    | some e =>
        rw [if_neg (by simp)]
        rfl
    | none =>
        rw [if_pos ⟨hcount, rfl⟩, if_pos hcount]
        exact bind_of_ok (report_withReports _ _ _ s q)
  · rw [if_neg fun h => hcount h.1, if_neg hcount, ite_self]
    rfl

namespace Parallel

/-- An answer that does not depend on the reports, in the same state. -/
theorem ask {f : Lowering → α} (hf : ∀ s q, f (s.withReports q) = f s) :
    Parallel ρ (do return f (← get)) where
  agree {s p q} h := by
    change Lowering.Agree ρ p q (.ok (f (s.withReports p), s.withReports p))
      (.ok (f (s.withReports q), s.withReports q))
    rw [hf, hf]
    exact .ok h (.refl p) (.refl q)

/-- An answer that is given at once. -/
theorem pure (a : α) : Parallel ρ (Pure.pure a) := ask (f := fun _ => a) fun _ _ => rfl

theorem bind {x : Lower α} {f : α → Lower β} (hx : Parallel ρ x) (hf : ∀ a, Parallel ρ (f a)) :
    Parallel ρ (x >>= f) :=
  ⟨fun h => (hx.agree h).bind fun h' _ _ => (hf _).agree h'⟩

/-- What follows may depend on all of the state but the reports. -/
theorem get {f : Lowering → Lower β} (hf : ∀ s q, f (s.withReports q) = f s)
    (h : ∀ s, Parallel ρ (f s)) : Parallel ρ (get >>= f) where
  agree {s p q} hpq := by
    change Lowering.Agree ρ p q (f (s.withReports p) (s.withReports p))
      (f (s.withReports q) (s.withReports q))
    rw [hf, hf]
    exact (h s).agree hpq

/-- A change of the tables that does not concern the reports. -/
theorem modifyContext {f : Context → Context}
    (hf : ∀ c q, f (c.withReports q) = (f c).withReports q) : Parallel ρ (Lower.modifyContext f) where
  agree {s p q} h := by
    change Lowering.Agree ρ p q (.ok ((), { s with context := f (s.context.withReports p) }))
      (.ok ((), { s with context := f (s.context.withReports q) }))
    rw [hf, hf]
    exact .ok (s := { s with context := f s.context }) h (.refl p) (.refl q)

theorem modifyPass (f : Pass → Pass) : Parallel ρ (Lower.modifyPass f) where
  agree {s p q} h := by
    exact .ok (s := { s with pass := f s.pass }) h (.refl p) (.refl q)

theorem intern (text : String) : Parallel ρ (Lower.intern text) where
  agree {s p q} h := by
    exact .ok (s := { s with names := (s.names.intern text).2 }) h (.refl p) (.refl q)

/-- A computation that has nothing to do with the state. -/
theorem check (c : Checked α) : Parallel ρ (liftM c : Lower α) where
  agree {s p q} h := by
    cases c with
    | error e => exact .crash e
    | ok a => exact .ok h (.refl p) (.refl q)

theorem build (b : Build α) : Parallel ρ (liftM b : Lower α) where
  agree {s p q} h := by
    cases hb : b s.module with
    | error e =>
        have hrun (q : DiagnosticQueue) : (liftM b : Lower α) (s.withReports q) = .error e := by
          change ofBuild b ⟨s.context.withReports q, s.names, s.module, s.pass⟩ = _
          rw [ofBuild, hb]
        rw [hrun, hrun]
        exact .crash e
    | ok r =>
        have hrun (q : DiagnosticQueue) : (liftM b : Lower α) (s.withReports q) =
            .ok (r.1, Lowering.withReports { s with module := r.2 } q) := build_of_ok hb
        rw [hrun, hrun]
        exact .ok h (.refl p) (.refl q)

theorem appendBlock (name : String) : Parallel ρ (Lower.appendBlock name) := by
  unfold Lower.appendBlock
  refine .bind (.ask (f := (·.pass.func)) fun _ _ => rfl) fun f => ?_
  cases f with
  | none => exact .bind (.build _) fun _ => .build _
  | some f => exact .build _

theorem entryAlloca (ty : TypeId) : Parallel ρ (Lower.entryAlloca ty) := by
  unfold Lower.entryAlloca
  refine .bind (.ask (f := (·.module.position)) fun _ _ => rfl) fun here =>
    .bind (.ask (f := (·.pass.func)) fun _ _ => rfl) fun f => ?_
  cases f with
  | none =>
      refine .bind (.build _) fun slot => ?_
      cases here with
      | none => exact .pure slot
      | some b => exact .bind (.build _) fun _ => .pure slot
  | some f =>
      refine .bind (.build _) fun _ => .bind (.build _) fun slot => ?_
      cases here with
      | none => exact .pure slot
      | some b => exact .bind (.build _) fun _ => .pure slot

/-- The exceptions that have been collected. -/
theorem popThrowFrame : Parallel ρ Lower.popThrowFrame := by
  refine .get (fun _ _ => rfl) fun s => ?_
  cases s.pass.throwStack with
  | nil => exact .pure _
  | cons top rest => exact .bind (.modifyPass _) fun _ => .pure _

theorem inFunction (f : FunctionState) {body : Lower ThrowSet} (hbody : Parallel ρ body) :
    Parallel ρ (Lower.inFunction f body) := by
  unfold Lower.inFunction
  refine .get (fun _ _ => rfl) fun _ => .bind (.ask (f := (·.module.position)) fun _ _ => rfl)
    fun _ => .get (fun _ _ => rfl) fun _ => .bind (.ask (f := (·.context.symbols)) fun _ _ => rfl)
      fun _ => .bind (.modifyContext fun _ _ => rfl) fun _ => .bind (.modifyPass _) fun _ =>
        .bind hbody fun _ => .get (fun _ _ => rfl) fun s => ?_
  dsimp only
  split
  · exact .bind (.modifyPass _) fun _ => .bind (.modifyContext fun _ _ => rfl) fun _ =>
      .bind (.modifyPass _) fun _ => .bind (.build _) fun _ => .pure _
  · exact .bind (.modifyContext fun _ _ => rfl) fun _ => .bind (.modifyPass _) fun _ =>
      .bind (.build _) fun _ => .pure _

theorem asNewPass {body : Lower Unit} (hbody : Parallel ρ body) :
    Parallel ρ (Lower.asNewPass body) := by
  unfold Lower.asNewPass
  refine .get (fun _ _ => rfl) fun _ => .bind (.intern _) fun _ => .bind (.modifyPass _) fun _ =>
    .bind hbody fun _ => .get (fun _ _ => rfl) fun s => .bind (.modifyPass _) fun _ => ?_
  cases s.pass.fatal with
  | none => exact .pure _
  | some e => exact .modifyPass _

variable (hρ : DiagnosticQueue.IsKept ρ)
include hρ

theorem report (kind : DiagnosticKind) (message : String) (span : Span) :
    Parallel ρ (Lower.report kind message span) where
  agree {s p q} h := by
    rw [report_withReports, report_withReports]
    exact .ok (hρ.push h) (p.later_push _) (q.later_push _)

/-- A part that has to have a value. -/
theorem demand {x : Lower (Option Operand)} (hx : Parallel ρ x) (span : Span) :
    Parallel ρ (Lower.demand x span) where
  agree {s p q} h := by
    refine Lowering.Agree.bind (hx.agree h) fun {o p' q' s'} h' hp hq => ?_
    cases o with
    | some op => exact .ok h' (.refl p') (.refl q')
    | none =>
        change Lowering.Agree ρ p' q'
          (Lower.unlessReported p.errorCount span (s'.withReports p'))
          (Lower.unlessReported q.errorCount span (s'.withReports q'))
        rw [unlessReported_withReports, unlessReported_withReports]
        cases s'.pass.fatal with
        | some e => exact .ok h' (.refl p') (.refl q')
        | none =>
            exact .ok (hρ.complain h hp hq h') (DiagnosticQueue.later_complain p p' span)
              (DiagnosticQueue.later_complain q q' span)

end Parallel

/-- What is put together from the steps of lowering does the same, whichever of two related queues it
reports to. -/
theorem Composed.parallel {L : Leeway} {x : Lower α} (hx : Composed Elementary L x)
    (hρ : DiagnosticQueue.IsKept ρ) : Parallel ρ x := by
  induction hx with
  | part hx =>
      cases hx with
      | still b => exact .build b
      | alloca ty => exact .build _
      | choose b _ ty incoming => exact .build _
      | entryAlloca ty => exact .entryAlloca ty
      | modifyContext hf => exact .modifyContext hf.withReports
      | modifyPass => exact .modifyPass _
  | pure a => exact .pure a
  | seq _ _ ihx ihf => exact .bind ihx ihf
  | check c => exact .check c
  | ask f hf => exact .ask hf
  | outer hf _ ih => exact .get hf ih
  | within _ _ ihx ihy =>
      refine .bind (.ask (f := (·.pass.func)) fun _ _ => rfl) fun f => ?_
      split
      · exact ihx
      · exact ihy
  | intern text => exact .intern text
  | report kind message span => exact .report hρ kind message span
  | note f _ => exact .modifyPass f
  | goOn b => exact .build _
  | enter b _ _ _ ih => exact .bind (.build _) fun _ => ih
  | fresh name _ _ ih => exact .bind (.appendBlock name) ih
  | freshIn _ g name _ _ ih => exact .bind (.build _) ih
  | entryIn _ g _ ih => exact .bind (.build _) ih
  | comingBack _ ih =>
      exact .bind (.ask (f := (·.module.position)) fun _ _ => rfl) fun _ => .bind ih fun _ => .build _
  | demand _ span ih => exact .demand hρ ih span
  | collecting _ ih =>
      exact .bind (.modifyPass _) fun _ => .bind ih fun _ => .bind .popThrowFrame fun _ => .pure _
  | withTargets targets _ _ ih =>
      exact .get (fun _ _ => rfl) fun _ => .bind (.modifyPass _) fun _ => .bind ih fun _ =>
        .modifyPass _
  | withTry frame _ _ ih =>
      exact .bind (.modifyPass _) fun _ => .bind (.modifyPass _) fun _ => .bind ih fun _ =>
        .bind .popThrowFrame fun _ => .bind (.modifyPass _) fun _ => .pure _
  | withBody g _ _ ih =>
      exact .bind (.build _) fun a => .bind (.build _) fun b => .inFunction _ (ih a b)
  | asNewPass _ ih => exact .asNewPass ih

end Lower

end SsaCompiler
