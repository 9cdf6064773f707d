/-
# Wild pointers

A load, a store, and the address of an element or of a field are executed whatever the pointer is. A
pointer that leads nowhere is answered with a bad access, because the machine looks for the bytes
before it touches any, and the address of an element wraps around at the end of the address space.

The address of a field does not: the offset of the field is added to the address of the structure,
and where the sum is no machine word the machine crashes. That is the only crash. It follows that a
stretch of such instructions crashes exactly where it comes to a field behind the last address.
-/

import SsaCompiler.Proofs.Ir.Integrity
import SsaCompiler.Proofs.Lower.Compilation
import SsaCompiler.Proofs.Machine.Access
import SsaCompiler.Proofs.Machine.Allocator
import SsaCompiler.Proofs.Machine.Ending
import SsaCompiler.Proofs.Machine.Path

namespace SsaCompiler

/-! ### Memory stays addressable -/

namespace Memory

variable {m m' : Memory}

theorem IsAddressable.of_sameRoom (hm : m.IsAddressable) (h : m.SameRoom m') :
    m'.IsAddressable := fun isStack => (h.size isStack).symm ▸ hm isStack

/-- A region that is made longer for a block that has been placed can still be addressed. -/
theorem size_grow_le {region : Array UInt8} {size align start : Nat}
    (hregion : region.size ≤ 2 ^ 63) (hplace : m.place region size align = .ok start) :
    (grow region start size).size ≤ 2 ^ 63 := by
  obtain ⟨⟨⟩, -, hplace⟩ := answer_bind_eq_ok_iff.1 hplace
  dsimp only at hplace
  split at hplace
  · rename_i hlt
    cases hplace
    unfold grow
    rw [size_extendZero]
    unfold wordRange at hlt
    omega
  · cases hplace

namespace Ledger

variable {l : Ledger}

/-- A request for a block leaves memory addressable. -/
theorem isAddressable_allocate (hm : m.IsAddressable) (isStack : Bool) (size align : Nat) :
    (MemoryOp.after (allocate isStack size align) m).IsAddressable := by
  obtain ⟨heap, stack, limit, live⟩ := m
  have hheap : heap.size ≤ 2 ^ 63 := hm false
  have hstack : stack.size ≤ 2 ^ 63 := hm true
  unfold MemoryOp.after allocate
  cases isStack with
  | false =>
      simp only [Bool.false_eq_true, ↓reduceIte, allocHeap]
      cases hplace : place ⟨heap, stack, limit, live⟩ heap size align with
      | error e => exact hm
      | ok start =>
          rintro (_ | _)
          · exact size_grow_le hheap hplace
          · exact hstack
  | true =>
      simp only [↓reduceIte, allocStack]
      cases hplace : place ⟨heap, stack, limit, live⟩ stack size align with
      | error e => exact hm
      | ok start =>
          rintro (_ | _)
          · exact hheap
          · exact size_grow_le hstack hplace

/-- Every request leaves memory addressable. -/
theorem isAddressable_step (hl : l.memory.IsAddressable) (r : Request) :
    (l.step r).memory.IsAddressable := by
  cases r with
  | allocate isStack size align =>
      have hafter := isAddressable_allocate hl isStack size align
      unfold MemoryOp.after at hafter
      rw [step]
      cases hrun : allocate isStack size align l.memory <;> rw [hrun] at hafter <;> exact hafter
  | free a =>
      intro isStack
      have hsize : ((l.memory.free a).region isStack).size = (l.memory.region isStack).size := by
        unfold Memory.free
        split <;> cases isStack <;> rfl
      exact hsize ▸ hl isStack
  | writeBytes a bytes => exact hl.of_sameRoom (keepsRoom_writeBytes a bytes l.memory)
  | write types a ty v => exact hl.of_sameRoom (keepsRoom_writeWithin types _ a ty v l.memory)
  | resetStack mark =>
      rintro (_ | _)
      · exact hl false
      · have hstack : l.memory.stack.size ≤ 2 ^ 63 := hl true
        change (l.memory.stack.shrink mark).size ≤ 2 ^ 63
        rw [Array.size_shrink]
        omega

/-- Whatever a program asks of its memory, memory is addressable. -/
theorem isAddressable_run (bound : Nat) (requests : List Request) :
    (run bound requests).memory.IsAddressable := by
  have hfold : ∀ (requests : List Request) (l : Ledger), l.memory.IsAddressable →
      (requests.foldl step l).memory.IsAddressable := by
    intro requests
    induction requests with
    | nil => exact fun l hl => hl
    | cons r rest ih => exact fun l hl => ih _ (isAddressable_step hl r)
  exact hfold requests _ fun isStack => by cases isStack <;> exact Nat.zero_le _

end Ledger

end Memory

/-! ### Operands -/

/-- A module in which every type has a size, and pointers point to types that are there. -/
structure Module.IsSized (m : Module) : Prop where
  isScoped : m.types.IsScoped
  isAcyclic : m.types.IsAcyclic
  isBounded : m.types.IsBounded
  pointee : ∀ {id ty}, m.types.get id = .ok (.pointer ty) → m.types.Has ty

/-- What a pointer points to is there. -/
theorem Module.IsSized.has {m : Module} (hm : m.IsSized) {ptr : ValueId} {ty : TypeId}
    (hptr : m.valueType ptr = .ok (.pointer ty)) : m.types.Has ty := by
  obtain ⟨id, -, hid⟩ := exists_typeOf_of_valueType hptr
  exact hm.pointee hid

/-- An instruction works with an address. -/
def Instr.UsesAddress : Instr → Prop
  | .load _ | .store .. | .structGep .. | .gep .. => True
  | _ => False

/-- A value is that of an instruction that works with an address and has operands that are there. -/
def Module.IsAccess (m : Module) (id : ValueId) : Prop :=
  ∃ ty i, m.value id = .ok ⟨ty, .instr i⟩ ∧ i.UsesAddress ∧
    ∀ v ∈ i.operands, ∃ vty, m.typeOf v = .ok vty

/-- Looking up an operand does not crash, and what is found fills the type of the operand. -/
def Frame.IsFilled (m : Module) (globals : Array UInt64) (frame : Frame) : Prop :=
  ∀ v ty, m.typeOf v = .ok ty → (frame.operand m globals v).Settles (m.types.Fills ty)

/-- One more value that fills its type. -/
theorem Frame.IsFilled.bind {m : Module} {globals : Array UInt64} {frame : Frame} {id : ValueId}
    {ty : TypeId} {i : Instr} {x : Val} (h : frame.IsFilled m globals)
    (hid : m.value id = .ok ⟨ty, .instr i⟩) (hx : m.types.Fills ty x) :
    (frame.bind id x).IsFilled m globals := by
  intro v vty hv
  by_cases hsame : id = v
  · subst hsame
    cases hv.symm.trans (Module.typeOf_of_value hid)
    exact .of_ok (operand_bind_self hid globals) hx
  · rw [operand_bind_ne hsame]
    exact h v vty hv

namespace Exec

variable {m : Module} {frame : Frame} {s : MachineState} {v ptr id : ValueId} {ty : TypeId}
  {i : Instr} {x : Val} {Q : Val → Prop}

/-- An operand is looked up, and nothing changes. -/
theorem settles_operand (h : (frame.operand m s.globals v).Settles Q) :
    Settles (operand m frame v) s fun x s' =>
      s' = s ∧ frame.operand m s.globals v = .ok x ∧ Q x := by
  cases hrun : frame.operand m s.globals v with
  | ok x =>
      rw [hrun] at h
      exact .of_ok (operand_of_ok hrun) ⟨rfl, rfl, h⟩
  | error e =>
      rw [hrun] at h
      have herror : operand m frame v s = .error (.ofFault e) s := by
        unfold operand
        rw [hrun]
      cases e with
      | failed error => exact .of_error herror not_false
      | crashed c => exact (h trivial).elim

theorem settles_ptrOperand (h : (frame.operand m s.globals v).Settles Q) :
    Settles (ptrOperand m frame v) s fun a s' =>
      s' = s ∧ ∃ x, frame.operand m s.globals v = .ok x ∧ x.asPtr? = some a := by
  refine (settles_operand h).bind fun x s' ⟨hs, hx, _⟩ => ?_
  subst hs
  cases hptr : x.asPtr? with
  | some a => exact .of_ok rfl ⟨rfl, x, hx, hptr⟩
  | none => exact .of_error rfl not_false

theorem settles_intOperand (h : (frame.operand m s.globals v).Settles Q) :
    Settles (intOperand m frame v) s fun _ s' => s' = s := by
  refine (settles_operand h).bind fun x s' ⟨hs, _, _⟩ => ?_
  subst hs
  cases x.asInt? with
  | some i => exact .of_ok rfl rfl
  | none => exact .of_error rfl not_false

/-- An answer that is known comes without effect. -/
theorem settles_lift {α : Type} {c : Checked α} {a : α} (hc : c = .ok a) :
    Settles (liftM c : Exec α) s fun b s' => s' = s ∧ b = a := by
  subst hc
  exact .of_ok rfl ⟨rfl, rfl⟩

theorem settles_askMemory {question : Memory → Fallible Val}
    (h : (question s.memory).Settles Q) :
    Settles (askMemory question) s fun x s' => s' = s ∧ Q x := by
  cases hrun : question s.memory with
  | ok x =>
      rw [hrun] at h
      have hok : askMemory question s = .ok x s := by
        unfold askMemory
        simp only [hrun]
      exact .of_ok hok ⟨rfl, h⟩
  | error e =>
      rw [hrun] at h
      have herror : askMemory question s = .error (.ofFault e) s := by
        unfold askMemory
        simp only [hrun]
      cases e with
      | failed error => exact .of_error herror not_false
      | crashed c => exact (h trivial).elim

theorem settles_onMemory {op : MemoryOp Unit} {R : Memory → Prop}
    (h : Settles op s.memory fun _ => R) :
    Settles (onMemory op) s fun _ s' => ∃ memory, s' = { s with memory := memory } ∧ R memory := by
  unfold Settles at h
  cases hrun : op s.memory with
  | ok _ memory =>
      rw [hrun] at h
      exact .of_ok (onMemory_of_ok hrun) ⟨memory, rfl, h⟩
  | error e memory =>
      rw [hrun] at h
      cases e with
      | failed error => exact .of_error (onMemory_of_error hrun) not_false
      | crashed c => exact (h trivial).elim

/-! ### Accesses -/

/-- A frame in which operands are found, and a memory that can be addressed. -/
structure IsReady (m : Module) (frame : Frame) (s : MachineState) : Prop where
  frame : frame.IsFilled m s.globals
  memory : s.memory.IsAddressable

/-- One more value that fills its type. -/
theorem IsReady.bind (h : IsReady m frame s) (hid : m.value id = .ok ⟨ty, .instr i⟩)
    (hx : m.types.Fills ty x) : IsReady m (frame.bind id x) s := ⟨h.frame.bind hid hx, h.memory⟩

/-- The instruction asks for the place of a field, and that lies behind the last address. -/
def LeadsOut (m : Module) (frame : Frame) (globals : Array UInt64) : Instr → Prop
  | .structGep ptr index => ∃ x a struct offset, frame.operand m globals ptr = .ok x ∧
      x.asPtr? = some a ∧ m.valueType ptr = .ok (.pointer struct) ∧
      m.types.fieldOffset struct index = .ok (some offset) ∧ wordRange ≤ a.toNat + offset
  | _ => False

theorem settles_load (hm : m.IsSized) (hs : IsReady m frame s) (call : Caller)
    (hid : m.value id = .ok ⟨ty, .instr (.load ptr)⟩)
    (hptr : m.valueType ptr = .ok (.pointer ty)) :
    Settles (instruction m call frame id (.load ptr)) s (IsReady m) := by
  obtain ⟨pty, hpty, -⟩ := Module.exists_typeOf_of_valueType hptr
  refine (settles_ptrOperand (hs.frame ptr pty hpty)).bind fun a s' ⟨hsame, _⟩ => ?_
  subst hsame
  refine (settles_lift (Module.typeOf_of_value hid)).bind fun ty' s' ⟨hsame, hty⟩ => ?_
  subst hsame hty
  have hread := hs.memory.read hm.isScoped hm.isAcyclic hm.isBounded (hm.has hptr) a
  refine (settles_askMemory (hread.imp fun _ _ h => h.2)).bind fun x s' ⟨hsame, hx⟩ => ?_
  subst hsame
  exact .of_ok rfl (hs.bind hid hx)

theorem settles_store (hm : m.IsSized) (hs : IsReady m frame s) (call : Caller)
    (hid : m.value id = .ok ⟨ty, .instr (.store v ptr)⟩) {pointee : TypeId}
    (hptr : m.valueType ptr = .ok (.pointer pointee)) (hv : m.typeOf v = .ok pointee) :
    Settles (instruction m call frame id (.store v ptr)) s (IsReady m) := by
  obtain ⟨pty, hpty, -⟩ := Module.exists_typeOf_of_valueType hptr
  refine (settles_ptrOperand (hs.frame ptr pty hpty)).bind fun a s' ⟨hsame, _⟩ => ?_
  subst hsame
  refine (settles_operand (hs.frame v pointee hv)).bind fun x s' ⟨hsame, _, hx⟩ => ?_
  subst hsame
  refine (settles_lift hv).bind fun ty' s' ⟨hsame, hty⟩ => ?_
  subst hsame hty
  have hwrite := hs.memory.write hm.isScoped hm.isAcyclic hm.isBounded (hm.has hptr) a hx
  refine (settles_onMemory (hwrite.imp fun _ _ h => h.1)).bind fun _ s' ⟨memory, hsame, hmem⟩ => ?_
  subst hsame
  exact .of_ok rfl (IsReady.bind ⟨hs.frame, hmem⟩ hid (.refused nofun))

/-- The address of an element wraps around. -/
theorem settles_gep (hm : m.IsSized) (hs : IsReady m frame s) (call : Caller) {index : ValueId}
    (hid : m.value id = .ok ⟨ty, .instr (.gep ptr index)⟩) {pointee : TypeId}
    (hptr : m.valueType ptr = .ok (.pointer pointee)) {ity : TypeId}
    (hindex : m.typeOf index = .ok ity) :
    Settles (instruction m call frame id (.gep ptr index)) s (IsReady m) := by
  obtain ⟨pty, hpty, -⟩ := Module.exists_typeOf_of_valueType hptr
  have haddress : Settles (elementAddress m frame ptr index) s fun x s' =>
      s' = s ∧ ∃ a, x = .ptr a := by
    refine (settles_ptrOperand (hs.frame ptr pty hpty)).bind fun a s' ⟨hsame, _⟩ => ?_
    subst hsame
    refine (settles_intOperand (hs.frame index ity hindex)).bind fun k s' hsame => ?_
    subst hsame
    refine (settles_lift hptr).bind fun t s' ⟨hsame, ht⟩ => ?_
    subst hsame ht
    refine (settles_lift (TypeTable.sizeOf_eq_ok hm.isScoped hm.isAcyclic hm.isBounded
      (hm.has hptr))).bind fun size s' ⟨hsame, _⟩ => ?_
    exact .of_ok rfl ⟨hsame, _, rfl⟩
  refine haddress.bind fun x s' ⟨hsame, a, hx⟩ => ?_
  subst hsame hx
  exact .of_ok rfl (hs.bind hid (.refused nofun))

/-- The address of a field behind the last address is no word. -/
theorem instruction_of_leadsOut (call : Caller) (id : ValueId) (h : LeadsOut m frame s.globals i) :
    instruction m call frame id i s = .error (.crashed .overflow) s := by
  cases i with
  | structGep ptr index =>
      obtain ⟨x, a, struct, offset, hx, hptr, htype, hoffset, hout⟩ := h
      have haddress : fieldAddress m frame id ptr index s = .error (.crashed .overflow) s := by
        unfold fieldAddress
        rw [bind_of_ok (ptrOperand_of_ok hx hptr), htype, bind_of_ok (liftM_checked_ok _ s)]
        simp only [IrType.pointee?]
        rw [hoffset, bind_of_ok (liftM_checked_ok _ s)]
        refine bind_of_error ?_
        unfold addressPlus
        rw [show Checked.word (a.toNat + offset) = .error .overflow from
          if_neg (Nat.not_lt.2 hout)]
        rfl
      exact bind_of_error haddress
  | _ => exact h.elim

/-- The address of a field that is not behind the last address. -/
theorem settles_structGep (hm : m.IsSized) (hs : IsReady m frame s) (call : Caller) {index : Nat}
    (hid : m.value id = .ok ⟨ty, .instr (.structGep ptr index)⟩)
    (hfits : m.Fits ty (.structGep ptr index))
    (hin : ¬ LeadsOut m frame s.globals (.structGep ptr index)) :
    Settles (instruction m call frame id (.structGep ptr index)) s (IsReady m) := by
  obtain ⟨struct, t, fields, field, hptr, ht, hfields, hfield, -⟩ := hfits
  obtain ⟨pty, hpty, -⟩ := Module.exists_typeOf_of_valueType hptr
  have hoffset := TypeTable.fieldOffset_eq_ok hm.isScoped hm.isAcyclic hm.isBounded ht hfields
    hfield
  have haddress : Settles (fieldAddress m frame id ptr index) s fun x s' =>
      s' = s ∧ ∃ a, x = .ptr a := by
    refine (settles_ptrOperand (hs.frame ptr pty hpty)).bind fun a s' ⟨hsame, x, hx, ha⟩ => ?_
    subst hsame
    refine (settles_lift hptr).bind fun t' s' ⟨hsame, ht'⟩ => ?_
    subst hsame ht'
    refine (settles_lift hoffset).bind fun offset? s' ⟨hsame, hoffset?⟩ => ?_
    subst hsame hoffset?
    obtain ⟨b, hb, -⟩ := Memory.addressPlus_eq_ok (Nat.not_le.1 fun hout =>
      hin ⟨x, a, struct, _, hx, ha, hptr, hoffset, hout⟩)
    refine (settles_lift hb).bind fun b s' ⟨hsame, _⟩ => ?_
    exact .of_ok rfl ⟨hsame, _, rfl⟩
  refine haddress.bind fun x s' ⟨hsame, a, hx⟩ => ?_
  subst hsame hx
  exact .of_ok rfl (hs.bind hid (.refused nofun))

/-- An instruction that works with an address does not crash unless it leads behind the last
address, and when it answers everything is ready for the next one. -/
theorem settles_access (hm : m.IsSized) (hs : IsReady m frame s) (call : Caller)
    (hid : m.value id = .ok ⟨ty, .instr i⟩) (hfits : m.Fits ty i) (hi : i.UsesAddress)
    (hoperands : ∀ v ∈ i.operands, ∃ vty, m.typeOf v = .ok vty)
    (hin : ¬ LeadsOut m frame s.globals i) :
    Settles (instruction m call frame id i) s (IsReady m) := by
  cases i with
  | load ptr => exact settles_load hm hs call hid hfits
  | store value ptr =>
      obtain ⟨pointee, hptr, hvalue⟩ := hfits
      exact settles_store hm hs call hid hptr hvalue
  | structGep ptr index => exact settles_structGep hm hs call hid hfits hin
  | gep ptr index =>
      obtain ⟨hptr, pointee, hty⟩ := hfits
      obtain ⟨ity, hindex⟩ := hoperands index (by simp [Instr.operands])
      exact settles_gep hm hs call hid (Module.valueType_of_typeOf hptr hty) hindex
  | _ => exact hi.elim

/-! ### Stretches of accesses -/

/-- The first of some instructions is executed as one step, and the others behind it. -/
theorem instructions_cons_run (limits : Limits) (call : Caller) (ids : List ValueId)
    (hid : m.value id = .ok ⟨ty, .instr i⟩) :
    instructions m limits call frame (id :: ids) s =
      if s.steps < limits.maxSteps then
        match instruction m call frame id i s.tick with
        | .ok frame' s' => instructions m limits call frame' ids s'
        | .error e s' => .error e s'
      else .error (.failed (.stepLimit limits.maxSteps)) s.tick := by
  rw [instructions_cons hid]
  split
  · rename_i hlimit
    rw [bind_of_ok (step_of_lt hlimit)]
    cases hinstr : instruction m call frame id i s.tick with
    | ok frame' s' => exact bind_of_ok hinstr
    | error e s' => exact bind_of_error hinstr
  · rename_i hlimit
    exact bind_of_error (step_of_le (Nat.not_lt.1 hlimit))

/-- Instructions that work with addresses, from where everything is ready for them, are executed and
leave everything ready for what is behind them, or they are stopped without a crash, or they crash
where they come to a field behind the last address. -/
theorem instructions_cases (hm : m.IsSized) (hfitting : m.IsFitting) (limits : Limits)
    (call : Caller) {ids : List ValueId} (hids : ∀ id ∈ ids, m.IsAccess id)
    (hs : IsReady m frame s) :
    (∃ frame' s', instructions m limits call frame ids s = .ok frame' s' ∧ IsReady m frame' s') ∨
      (∃ e s', instructions m limits call frame ids s = .error e s' ∧ ¬ MeetsCrash.IsCrash e) ∨
      ∃ before id rest frame' s₁ ty i, ids = before ++ id :: rest ∧
        instructions m limits call frame before s = .ok frame' s₁ ∧ s₁.steps < limits.maxSteps ∧
        m.value id = .ok ⟨ty, .instr i⟩ ∧ LeadsOut m frame' s₁.globals i ∧
        instructions m limits call frame ids s = .error (.crashed .overflow) s₁.tick := by
  induction ids generalizing frame s with
  | nil => exact .inl ⟨frame, s, rfl, hs⟩
  | cons id ids ih =>
      obtain ⟨ty, i, hid, huses, hoperands⟩ := hids id List.mem_cons_self
      by_cases hlimit : s.steps < limits.maxSteps
      swap
      · exact .inr (.inl ⟨_, _, (instructions_cons_run limits call ids hid).trans (if_neg hlimit),
          not_false⟩)
      have hrun (ids : List ValueId) : instructions m limits call frame (id :: ids) s =
          match instruction m call frame id i s.tick with
          | .ok frame' s' => instructions m limits call frame' ids s'
          | .error e s' => .error e s' :=
        (instructions_cons_run limits call ids hid).trans (if_pos hlimit)
      by_cases hout : LeadsOut m frame s.globals i
      · refine .inr (.inr ⟨[], id, ids, frame, s, ty, i, rfl, rfl, hlimit, hid, hout, ?_⟩)
        rw [hrun, instruction_of_leadsOut (s := s.tick) call id hout]
      have hsettles := settles_access (s := s.tick) hm ⟨hs.frame, hs.memory⟩ call hid
        (hfitting.instr hid rfl) huses hoperands hout
      unfold Settles at hsettles
      cases hinstr : instruction m call frame id i s.tick with
      | error e s₁ =>
          rw [hinstr] at hsettles
          exact .inr (.inl ⟨e, s₁, by rw [hrun, hinstr], hsettles⟩)
      | ok frame₁ s₁ =>
          rw [hinstr] at hsettles hrun
          rw [hrun]
          refine (ih (fun id' hid' => hids id' (List.mem_cons_of_mem id hid')) hsettles).imp_right
            (Or.imp_right ?_)
          rintro ⟨before, id', rest, frame', s₂, ty', i', rfl, hbefore, h⟩
          exact ⟨id :: before, id', rest, frame', s₂, ty', i', rfl, (hrun before).trans hbefore, h⟩

/-- Instructions that work with addresses, one after the other, from a frame and a memory that are
ready for them, crash in one case only: all of them up to the address of some field are executed,
the steps are not used up, and that field lies behind the last address. Whatever the pointers are,
loads and stores and the addresses of elements never crash. -/
theorem instructions_crash_iff (hm : m.IsSized) (hfitting : m.IsFitting) (limits : Limits)
    (call : Caller) {ids : List ValueId} (hids : ∀ id ∈ ids, m.IsAccess id) (hs : IsReady m frame s)
    (c : Crash) (s' : MachineState) :
    instructions m limits call frame ids s = .error (.crashed c) s' ↔
      c = .overflow ∧ ∃ before id rest frame' s₁ ty i, ids = before ++ id :: rest ∧
        instructions m limits call frame before s = .ok frame' s₁ ∧ s₁.steps < limits.maxSteps ∧
        m.value id = .ok ⟨ty, .instr i⟩ ∧ LeadsOut m frame' s₁.globals i ∧ s' = s₁.tick := by
  constructor
  · intro h
    rcases instructions_cases hm hfitting limits call hids hs with ⟨_, _, hok, -⟩ |
      ⟨_, _, herror, hcrash⟩ |
      ⟨before, id, rest, frame', s₁, ty, i, hsplit, hbefore, hlimit, hid, hout, hrun⟩
    · cases hok.symm.trans h
    · cases herror.symm.trans h
      exact absurd trivial hcrash
    · cases hrun.symm.trans h
      exact ⟨rfl, before, id, rest, frame', s₁, ty, i, hsplit, hbefore, hlimit, hid, hout, rfl⟩
  · rintro ⟨rfl, before, id, rest, frame', s₁, ty, i, rfl, hbefore, hlimit, hid, hout, rfl⟩
    rw [instructions_append, bind_of_ok hbefore, instructions_cons_run limits call rest hid,
      if_pos hlimit, instruction_of_leadsOut (s := s₁.tick) call id hout]

/-- A run of compiled code of which nothing has been counted as an error, on its way to instructions
that work with addresses, is over before, or it goes on behind them, or it is stopped by one of them
without a crash, or it crashes where they come to a field behind the last address. -/
theorem rest_of_accesses {c : Compilation} (hc : c.IsBuilt) (hzero : c.module.codegenErrors = 0)
    (hsized : c.module.IsSized) {limits : Limits} {call : Caller} {name : String} {n k : Nat}
    {p : Point} {b : BlockId} {d : BlockData} {ids later : List ValueId}
    (hpath : Point.Reaches c.module call name p ⟨b, k, frame, s⟩)
    (hfuel : limits.maxSteps ≤ n + p.state.steps) (hblock : c.module.block b = .ok d)
    (hdrop : d.instrs.toList.drop k = ids ++ later) (hids : ∀ id ∈ ids, c.module.IsAccess id)
    (hs : IsReady c.module frame s) :
    (∃ n' frame' s', IsReady c.module frame' s' ∧
        rest c.module limits call name n p =
          rest c.module limits call name n' ⟨b, k + ids.length, frame', s'⟩) ∨
      (∃ e s', rest c.module limits call name n p = .error e s' ∧ ¬ MeetsCrash.IsCrash e) ∨
      ∃ before id after frame' s₁ ty i, ids = before ++ id :: after ∧
        instructions c.module limits call frame before s = .ok frame' s₁ ∧
        c.module.value id = .ok ⟨ty, .instr i⟩ ∧ LeadsOut c.module frame' s₁.globals i ∧
        rest c.module limits call name n p = .error (.crashed .overflow) s₁.tick := by
  obtain ⟨n', -, hrest⟩ | ⟨s', hrest⟩ := rest_of_reaches hpath hfuel
  swap
  · exact .inr (.inl ⟨_, s', hrest, not_false⟩)
  rw [hrest, rest_of_instructions hblock hdrop]
  rcases instructions_cases hsized (hc.isFitting hzero) limits call hids hs with
    ⟨frame', s', hrun, hready⟩ | ⟨e, s', hrun, hcrash⟩ |
    ⟨before, id, after, frame', s₁, ty, i, hsplit, hbefore, -, hid, hout, hrun⟩
  · exact .inl ⟨n', frame', s', hready, by rw [hrun]⟩
  · exact .inr (.inl ⟨e, s', by rw [hrun], hcrash⟩)
  · exact .inr (.inr ⟨before, id, after, frame', s₁, ty, i, hsplit, hbefore, hid, hout, by rw [hrun]⟩)

end Exec

/-! ### A program with a stray pointer -/

/-- A pointer is made out of a number, and the second member of the object behind it is read. -/
def strayProgram : Node :=
  let node (id : Nat) (kind : NodeKind Node) : Node := ⟨id, .unknown, kind⟩
  let object := node 0 (.object ⟨⟨3⟩, [⟨⟨4⟩, .prim .long⟩, ⟨⟨5⟩, .prim .long⟩], []⟩)
  let pointer := node 1 (.cast (node 2 (.unary .neg (node 3 (.intLit 1)))) (.pointer (.named ⟨3⟩)))
  let second := node 4 (.member (node 5 (.unary .deref pointer)) ⟨5⟩)
  node 6 (.module [object, node 7 (.function ⟨⟨6⟩, [], .prim .long, node 8 (.returnStmt second)⟩)])

/-- The module that the program is lowered to. -/
def strayModule : Module :=
  { Module.ofTables "stray"
      [.named "P" (some [⟨1⟩, ⟨1⟩]), .int 64, .function [] ⟨1⟩ false, .pointer ⟨0⟩, .int 32,
        .pointer ⟨1⟩]
      [⟨"main", ⟨2⟩, [], [⟨0⟩, ⟨1⟩, ⟨2⟩], none, none⟩] with
    values := #[⟨⟨4⟩, .const (.int 1)⟩, ⟨⟨4⟩, .const (.int 0)⟩, ⟨⟨4⟩, .const (.int (-1))⟩,
      ⟨⟨3⟩, .instr (.cast .inttoptr ⟨2⟩)⟩, ⟨⟨5⟩, .instr (.structGep ⟨3⟩ 1)⟩,
      ⟨⟨1⟩, .instr (.load ⟨4⟩)⟩, ⟨⟨1⟩, .const (.int 0)⟩]
    blocks := #[⟨"entry", ⟨0⟩, #[], some (.br ⟨1⟩)⟩,
      ⟨"body", ⟨0⟩, #[⟨3⟩, ⟨4⟩, ⟨5⟩], some (.ret (some ⟨5⟩))⟩,
      ⟨"dead", ⟨0⟩, #[], some (.ret (some ⟨6⟩))⟩] }

/-! #### The types, the code and the operands -/

/-- The structure is the only type with parts. -/
theorem contains_strayModule {outer inner : TypeId}
    (h : strayModule.types.Contains outer inner) : outer = ⟨0⟩ ∧ inner = ⟨1⟩ := by
  have hparts : ∀ i : Fin 6, ∀ p ∈ strayModule.types.types[i].parts, i.1 = 0 ∧ p = ⟨1⟩ := by decide
  obtain ⟨ty, hty, hinner⟩ := h
  obtain ⟨hlt, rfl⟩ := Array.getElem?_eq_some_iff.1 (Checked.at_eq_ok_iff.1 hty)
  obtain ⟨hindex, hp⟩ := hparts ⟨outer.index, hlt⟩ inner hinner
  exact ⟨congrArg TypeId.mk hindex, hp⟩

/-- Every type of the module has a size. -/
theorem isSized_strayModule : strayModule.IsSized where
  isScoped outer inner h := by
    obtain ⟨-, rfl⟩ := contains_strayModule h
    exact ⟨_, rfl⟩
  isAcyclic id h := by
    obtain ⟨next, hfirst, -⟩ := Relation.TransGen.head'_iff.1 h
    obtain ⟨last, -, hlast⟩ := Relation.TransGen.tail'_iff.1 h
    cases (contains_strayModule hfirst).1.symm.trans (contains_strayModule hlast).2
  isBounded := by decide
  pointee {id ty} h := by
    have hpointee : ∀ i : Fin 6, ∀ p ∈ strayModule.types.types[i].pointee?, p.index < 6 := by decide
    obtain ⟨hlt, hty⟩ := Array.getElem?_eq_some_iff.1 (Checked.at_eq_ok_iff.1 h)
    have hthere := hpointee ⟨id.index, hlt⟩ ty (by
      change ty ∈ (strayModule.types.types[id.index]).pointee?
      rw [hty]
      rfl)
    exact ⟨_, Checked.at_eq_ok_iff.2 (Array.getElem?_eq_getElem hthere)⟩

/-- The code of the module fits. -/
theorem isFitting_strayModule : strayModule.IsFitting where
  instr {v d i} hv hi := by
    obtain ⟨k⟩ := v
    have hk : k < 7 := (Array.getElem?_eq_some_iff.1 (Checked.at_eq_ok_iff.1 hv)).1
    interval_cases k <;> cases hv <;> cases hi
    · trivial
    · exact ⟨⟨0⟩, _, _, ⟨1⟩, rfl, rfl, rfl, rfl, rfl⟩
    · exact (rfl : strayModule.valueType ⟨4⟩ = .ok (.pointer ⟨1⟩))
  terminator {b block t} hb ht := by
    obtain ⟨k⟩ := b
    have hk : k < 3 := (Array.getElem?_eq_some_iff.1 (Checked.at_eq_ok_iff.1 hb)).1
    interval_cases k <;> cases hb <;> cases ht <;> trivial

/-- In a frame without values all operands of the module can be looked up. -/
theorem isFilled_strayModule (globals : Array UInt64) :
    (⟨∅, none⟩ : Frame).IsFilled strayModule globals := by
  intro v ty hv
  obtain ⟨d, hd, rfl⟩ := Module.exists_value_of_typeOf hv
  obtain ⟨k⟩ := v
  have hk : k < 7 := (Array.getElem?_eq_some_iff.1 (Checked.at_eq_ok_iff.1 hd)).1
  have hnone : (∅ : Std.HashMap ValueId Val)[(⟨k⟩ : ValueId)]? = none := Std.HashMap.getElem?_empty
  unfold Frame.operand
  rw [hnone]
  interval_cases k <;> cases hd
  any_goals exact .of_ok rfl (.refused nofun)
  all_goals exact not_false

namespace Exec

/-! #### Runs -/

/-- What a call of the program has computed when it comes to the member. -/
def strayFrame : Frame := (⟨∅, none⟩ : Frame).bind ⟨3⟩ (.ptr (-1))

/-- The state of the machine then. -/
def strayState : MachineState := ⟨.new 67108864, #[], .empty, "", 2, 1, .empty, []⟩

/-- In the program the field behind the last address is where the code crashes. -/
theorem instructions_crash_iff_strayModule :
    strayModule.IsSized ∧ strayModule.IsFitting ∧
      (∀ id ∈ [⟨4⟩, ⟨5⟩], strayModule.IsAccess id) ∧ IsReady strayModule strayFrame strayState ∧
      instructions strayModule .standard (fun _ _ => fail .aborted) strayFrame [⟨4⟩, ⟨5⟩]
        strayState = .error (.crashed .overflow) strayState.tick := by
  have hpointer : strayModule.value ⟨3⟩ = .ok ⟨⟨3⟩, .instr (.cast .inttoptr ⟨2⟩)⟩ := rfl
  have hids : ∀ id ∈ [(⟨4⟩ : ValueId), ⟨5⟩], strayModule.IsAccess id := by
    intro id hid
    rcases List.mem_cons.1 hid with rfl | hid
    · exact ⟨_, .structGep ⟨3⟩ 1, rfl, trivial, List.forall_mem_singleton.2 ⟨_, rfl⟩⟩
    · cases List.mem_singleton.1 hid
      exact ⟨_, .load ⟨4⟩, rfl, trivial, List.forall_mem_singleton.2 ⟨_, rfl⟩⟩
  have hready : IsReady strayModule strayFrame strayState :=
    ⟨(isFilled_strayModule #[]).bind hpointer (.refused nofun), fun isStack => by
      cases isStack <;> exact Nat.zero_le _⟩
  refine ⟨isSized_strayModule, isFitting_strayModule, hids, hready,
    (instructions_crash_iff isSized_strayModule isFitting_strayModule _ _ hids hready _ _).2
      ⟨rfl, [], ⟨4⟩, [⟨5⟩], strayFrame, strayState, _, _, rfl, rfl, by decide, rfl, ?_, rfl⟩⟩
  exact ⟨.ptr (-1), -1, ⟨0⟩, 8, Frame.operand_bind_self hpointer _, rfl, rfl, rfl, by decide⟩

/-- The block that holds the code of the program crashes at the address of the member. -/
theorem block_strayModule (call : Caller) {s : MachineState} (hs : s.steps < 1000) :
    block strayModule .standard call "main" ⟨1⟩ (some ⟨0⟩) ⟨∅, none⟩ s =
      .error (.crashed .overflow) s.tick.tick := by
  have hpointer : strayModule.value ⟨3⟩ = .ok ⟨⟨3⟩, .instr (.cast .inttoptr ⟨2⟩)⟩ := rfl
  have hmember : strayModule.value ⟨4⟩ = .ok ⟨⟨5⟩, .instr (.structGep ⟨3⟩ 1)⟩ := rfl
  have hstep : s.tick.steps < Limits.standard.maxSteps := by
    change s.steps + 1 < 10000000
    omega
  let frame : Frame := ⟨∅, none⟩
  have hcast : instruction strayModule call frame ⟨3⟩ (.cast .inttoptr ⟨2⟩) s.tick =
      .ok (frame.bind ⟨3⟩ (.ptr (-1))) s.tick := rfl
  have hlook : ptrOperand strayModule (frame.bind ⟨3⟩ (.ptr (-1))) ⟨3⟩ s.tick.tick =
      .ok (-1) s.tick.tick := ptrOperand_of_ok (Frame.operand_bind_self hpointer s.globals) rfl
  have haddress : fieldAddress strayModule (frame.bind ⟨3⟩ (.ptr (-1))) ⟨4⟩ ⟨3⟩ 1 s.tick.tick =
      .error (.crashed .overflow) s.tick.tick := (bind_of_ok hlook).trans rfl
  have hinstructions : instructions strayModule .standard call frame [⟨3⟩, ⟨4⟩, ⟨5⟩] s =
      .error (.crashed .overflow) s.tick.tick := by
    rw [instructions_cons hpointer, bind_of_ok (step_of_lt (Nat.lt_of_succ_lt hstep)),
      bind_of_ok hcast, instructions_cons hmember, bind_of_ok (step_of_lt hstep)]
    exact bind_of_error (bind_of_error haddress)
  have henter : enterBlock strayModule strayModule.blocks[1] (some ⟨0⟩) frame s =
      .ok (frame, [⟨3⟩, ⟨4⟩, ⟨5⟩]) s := rfl
  unfold block
  refine (bind_of_ok (liftM_checked_ok strayModule.blocks[1] s)).trans ?_
  rw [bind_of_ok henter]
  exact bind_of_error hinstructions

/-- The run of the program crashes. -/
theorem run_strayModule : strayModule.run "main" = .error (.crashed .overflow) := by
  let s : MachineState := ⟨.new 67108864, #[], .empty, "", 0, 0, .empty, []⟩
  let call := callWithin strayModule .standard 10004001
  have hjump : block strayModule .standard call "main" ⟨0⟩ none ⟨∅, none⟩
      { s with depth := 1 } = .ok (.goto ⟨1⟩ ⟨∅, none⟩) { s with depth := 1, steps := 1 } := rfl
  have hbody : body strayModule .standard call strayModule.functions[0] []
      { s with depth := s.depth + 1 } =
        .error (.crashed .overflow) ({ s with depth := 1, steps := 1 } : MachineState).tick.tick :=
    (bind_of_ok hjump).trans (bind_of_error (block_strayModule call (by decide)))
  have hcall : Exec.call strayModule .standard ⟨0⟩ [] s = _ := inCall_of_error hbody
  have hname : strayModule.functionByName? "main" = some ⟨0⟩ := by decide +kernel
  change (Machine.run ⟨strayModule, .standard, s⟩ "main").1 = _
  simp only [Machine.run, Machine.call, hname, hcall]

/-- The program is lowered without a report and without an error in its code, and its run
crashes. -/
theorem run_of_lower_strayProgram : ∃ outcome c',
    (Compilation.reading "stray" #["P", "x", "y", "main"]).lower (some strayProgram) =
      .ok (.ok outcome, c') ∧ outcome.errorCount = 0 ∧ c'.module.codegenErrors = 0 ∧
      c'.module.run "main" = .error (.crashed .overflow) := by
  obtain ⟨outcome, c', hlower, hcount, hmodule⟩ : ∃ outcome c',
      (Compilation.reading "stray" #["P", "x", "y", "main"]).lower (some strayProgram) =
        .ok (.ok outcome, c') ∧ outcome.errorCount = 0 ∧ c'.module = strayModule :=
    Compilation.exists_of_leaves (by decide +kernel)
  exact ⟨outcome, c', hlower, hcount, by rw [hmodule]; rfl, by rw [hmodule]; exact run_strayModule⟩

end Exec

end SsaCompiler
