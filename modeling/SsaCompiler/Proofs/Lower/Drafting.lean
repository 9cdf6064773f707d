/-
# Drafts in lowering

Lowering writes code by hand where it makes functions that no program contains. Between the
requests for lines it asks for support functions, and these requests leave the draft alone.
-/

import SsaCompiler.Proofs.Ir.Drafting
import SsaCompiler.Proofs.Lower.Entry
import SsaCompiler.Proofs.Lower.Layout

namespace SsaCompiler

open Lower SsaCompiler.Module

/-! ### Support functions -/

namespace SupportTable

variable {t : SupportTable} {g : SupportFunction} {f : FunctionId} {m : Module}

/-- A function with an entry is known as what it is, if functions are entered under their names. -/
theorem identify?_eq (hkeys : t.declared.keys.Nodup)
    (hnames : ∀ {g f}, t.declared.get? g = some f → m.functionByName? g.symbol = some f)
    (h : t.declared.get? g = some f) : t.identify? f = some g := by
  unfold identify?
  cases hfind : t.declared.entries.find? fun entry => entry.2 = f with
  | none =>
      have hself := List.find?_eq_none.1 hfind (g, f) (Table.mem_of_findIn h)
      simp at hself
  | some entry =>
      obtain ⟨g', f'⟩ := entry
      obtain rfl : f' = f := by simpa using List.find?_some hfind
      have hname := hnames (Table.findIn_of_mem hkeys (List.mem_of_find?_eq_some hfind))
      have hsymbol := Module.eq_of_functionByName? hname (hnames h)
      exact congrArg some (SupportFunction.symbol_inj hsymbol)

end SupportTable

/-- A support function comes out of the table, which may have one more then. -/
theorem Lower.support_eq_ok {s s' : Lowering} {g : SupportFunction} {f : FunctionId}
    (hrun : support g s = .ok (f, s')) :
    ∃ table m, s.context.support.get g s.module = .ok ((f, table), m) ∧
      s' = { s with module := m, context := { s.context with support := table } } := by
  rw [support, bind_of_ok (get_apply s)] at hrun
  obtain ⟨⟨f', table⟩, s₁, hlift, hend⟩ := bind_eq_ok_iff.1 hrun
  obtain ⟨m, hget, rfl⟩ := build_eq_ok_iff.1 hlift
  cases hend
  exact ⟨table, m, hget, rfl⟩

namespace Module

/-- The tables of lowering know the module. -/
class KnownTo (m : Module) (c : Context) (ns : Names) : Prop where
  known : c.Known ns m

/-- The function of a name. -/
class Bears (m : Module) (f : FunctionId) (name : outParam String) : Prop where
  function : m.functionByName? name = some f

section

variable {m m' : Module} {c : Context} {ns : Names} {f : FunctionId} {name : String}

instance (priority := low) [h : m.Before m'] [hm : m.KnownTo c ns] : m'.KnownTo c ns :=
  ⟨hm.known.mono (fun _ _ ht => ht) h.evolves⟩

instance (priority := low) [h : m.Before m'] [hf : m.Bears f name] : m'.Bears f name :=
  ⟨h.evolves.functionByName? hf.function⟩

end

/-- A function that can be run: where it starts and what its parameters are. -/
structure Runnable (m : Module) (f : FunctionId) (entry : BlockId) (params : List ValueId) : Prop where
  function : ∃ d, m.function f = .ok d ∧ d.entry? = some entry ∧ d.params = params
  params : ∀ i p, params[i]? = some p → ∃ ty, m.value p = .ok ⟨ty, .param f i⟩

/-- A function that has been declared and has no code yet. -/
structure Awaits (m : Module) (f : FunctionId) (params : List (ValueId × TypeId)) : Prop where
  function : ∃ d, m.function f = .ok d ∧ d.blocks = [] ∧ d.params = params.map Prod.fst
  params : ∀ i p, params[i]? = some p → m.value p.1 = .ok ⟨p.2, .param f i⟩

namespace Awaits

variable {m m' : Module} {f : FunctionId} {params : List (ValueId × TypeId)} {b : BlockId}
  {name : String}

/-- What happens beside the functions does not matter. -/
theorem mono (h : m.Awaits f params) (hm : m.Evolves m') (hfunctions : m'.functions = m.functions) :
    m'.Awaits f params where
  function := by
    obtain ⟨d, hd, hrest⟩ := h.function
    refine ⟨d, ?_, hrest⟩
    unfold Module.function at hd ⊢
    rwa [hfunctions]
  params i p hp := hm.value (h.params i p hp)

/-- Its parameters can be asked for. -/
theorem receives (h : m.Awaits f params) : m.Receives f (params.map Prod.fst) := by
  obtain ⟨d, hd, -, hparams⟩ := h.function
  exact ⟨d, hd, hparams⟩

theorem result (h : m.Awaits f params) {i : Nat} {p : ValueId} {ty : TypeId}
    (hp : params[i]? = some (p, ty)) : m.Result p ty :=
  ⟨⟨_, h.params i (p, ty) hp, rfl⟩⟩

theorem startsAt (h : m.Awaits f params) (hrun : Build.appendBlock f name m = .ok (b, m')) :
    m'.StartsAt f b := by
  obtain ⟨d, hd, hblocks, -⟩ := h.function
  exact startsAt_of_appendBlock hd hblocks hrun

theorem runnable {M : Module} (h : m.Awaits f params) (hM : m.Evolves M) [hb : M.StartsAt f b] :
    M.Runnable f b (params.map Prod.fst) where
  function := by
    obtain ⟨d, hd, -, hparams⟩ := h.function
    obtain ⟨d', hd', hgrows⟩ := hM.function hd
    obtain ⟨d'', hd'', hentry⟩ := hb.entry
    cases hd'.symm.trans hd''
    exact ⟨d', hd', hentry, hgrows.params.trans hparams⟩
  params i p hp := by
    rw [List.getElem?_map, Option.map_eq_some_iff] at hp
    obtain ⟨q, hq, rfl⟩ := hp
    exact ⟨q.2, hM.value (h.params i q hq)⟩

end Awaits

end Module

namespace Lower

variable {α β : Type} {c : Context} {ns : Names} {m : Module} {p : Pass} {r : β × Lowering}

/-- A request to the module, as the first of a sequence. -/
theorem bind_build {x : Build α} {k : α → Lower β}
    (h : ((liftM x : Lower α) >>= k) ⟨c, ns, m, p⟩ = .ok r) :
    ∃ a m', x m = .ok (a, m') ∧ k a ⟨c, ns, m', p⟩ = .ok r := by
  obtain ⟨a, s, hx, hrest⟩ := bind_eq_ok_iff.1 h
  obtain ⟨m', hrun, rfl⟩ := build_eq_ok_iff.1 hx
  exact ⟨a, m', hrun, hrest⟩

/-- A request to the module whose answer does not matter, as the last of a sequence. -/
theorem discard_build {x : Build α} {s' : Lowering}
    (h : discard (liftM x : Lower α) ⟨c, ns, m, p⟩ = .ok ((), s')) :
    ∃ a m', x m = .ok (a, m') ∧ s' = ⟨c, ns, m', p⟩ := by
  obtain ⟨a, m', hrun, hend⟩ := bind_build (k := fun _ => pure ()) h
  cases hend
  exact ⟨a, m', hrun, rfl⟩

/-- A support function, as the first of a sequence. It is there under its name, and no block
has changed. -/
theorem bind_support {g : SupportFunction} {k : FunctionId → Lower β} [hm : m.KnownTo c ns]
    (h : (support g >>= k) ⟨c, ns, m, p⟩ = .ok r) :
    ∃ f c' m', k f ⟨c', ns, m', p⟩ = .ok r ∧ m.Before m' ∧ m'.KnownTo c' ns ∧
      m'.Bears f g.symbol ∧ m'.blocks = m.blocks ∧ m'.position = m.position := by
  obtain ⟨f, s, hsupport, hrest⟩ := bind_eq_ok_iff.1 h
  have hknown : Lowering.Known ⟨c, ns, m, p⟩ := hm.known
  have hlater := Stepwise.later hknown hsupport
  obtain ⟨-, hname⟩ := (gives_support g hknown).run hsupport
  rw [support, bind_of_ok (get_apply _)] at hsupport
  obtain ⟨⟨f', table⟩, s₁, hget, hend⟩ := bind_eq_ok_iff.1 hsupport
  obtain ⟨m', hrun, rfl⟩ := build_eq_ok_iff.1 hget
  obtain ⟨hblocks, hposition⟩ := Build.Aside.same hrun
  cases hend
  exact ⟨f, _, m', hrest, ⟨hlater.module⟩, ⟨hlater.known hknown⟩, ⟨hname⟩, hblocks, hposition⟩

end Lower

end SsaCompiler
