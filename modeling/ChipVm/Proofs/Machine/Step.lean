/-
What a step that goes through has done: it has ticked the timers, executed the instruction at the
program counter and gone on as the flow says. And what an instruction leaves alone, stated once for
all of them.
-/
import ChipVm.Proofs.Machine.Fault

namespace ChipVm

/-- The addresses that an instruction writes to, by where the index stands. -/
def Instruction.cells (index : Nat) : Instruction → List Nat
  | .decimal _ => List.range' index 3
  | .store x => List.range' index (x.val + 1)
  | _ => []

namespace Memory

theorem byte_overlay_of_notMem {m : Memory} {start : Nat} {data : Array UInt8}
    {fits : start + data.size ≤ 4096} {a : Nat} (ha : a ∉ List.range' start data.size) :
    (m.overlay start data fits).byte a = m.byte a := by
  rw [byte_overlay]
  split
  · rw [List.mem_range'_1] at ha
    rw [Array.getElem?_eq_none (by omega), Option.getD_none]
  · rfl

theorem byte_writeBlock {m k : Memory} {start n : Nat} {data : List UInt8} (hl : data.length = n)
    (h : m.writeBlock start data = .ok k) {a : Nat} (ha : a ∉ List.range' start n) :
    k.byte a = m.byte a := by
  obtain ⟨start', fits, hs, -, rfl⟩ := writeBlock_ok h
  obtain rfl : start = start' := by omega
  exact byte_overlay_of_notMem (by rwa [List.size_toArray, hl])

end Memory

namespace Machine

variable {random : RandomBytes} {m after : Machine} {i : Instruction} {flow : Flow}

/-! ## Steps that go through -/

theorem fetch_tick (m : Machine) (now : Int) : (m.tick now).fetch = m.fetch := rfl

/-- The instruction at the program counter, in bytes that have been laid over memory. -/
theorem fetch_of_overlay {base : Memory} {start p : Nat} {data : Array UInt8}
    {first second : UInt8} (hm : ∃ fits, m.memory = base.overlay start data fits) (hpc : m.pc = p)
    (hp : start ≤ p) (hfirst : data[p - start]? = some first)
    (hsecond : data[p + 1 - start]? = some second) (hw : i.HasWord (.ofBytes first second)) :
    m.fetch = .ok i := by
  obtain ⟨fits, hm⟩ := hm
  have hsize : p + 1 - start < data.size := (Array.getElem?_eq_some_iff.1 hsecond).1
  refine fetch_eq_ok_iff.2 ⟨by omega, ?_⟩
  rw [word, hm, hpc, Memory.byte_overlay, if_pos hp, hfirst, Memory.byte_overlay,
    if_pos (Nat.le_succ_of_le hp), hsecond]
  exact hw

theorem step_of_execute (hf : m.fetch = .ok i) {now : Int}
    (h : (m.tick now).execute random i = (.ok flow, after)) :
    m.step random now = (.ok (after.commit flow).1, (after.commit flow).2) := by
  rw [step, cycle, fetch_tick, hf]
  simp only [h]

/-- A step that goes through has executed the instruction at the program counter. -/
theorem step_ok {now : Int} {status : Status} (h : m.step random now = (.ok status, after)) :
    ∃ i flow k, m.fetch = .ok i ∧ (m.tick now).execute random i = (.ok flow, k) ∧
      k.commit flow = (status, after) := by
  cases hf : m.fetch with
  | error f =>
    rw [step, cycle, fetch_tick, hf] at h
    cases h
  | ok i =>
    rcases hx : (m.tick now).execute random i with ⟨_ | flow, k⟩
    · rw [step, cycle, fetch_tick, hf] at h
      simp only [hx] at h
      cases h
    · rw [step_of_execute hf hx] at h
      cases h
      exact ⟨i, flow, k, rfl, hx, rfl⟩

theorem commit_touches {status : Status} (h : m.commit flow = (status, after)) :
    ∃ pc completed, after = { m with pc := pc, completed := completed } := by
  unfold commit at h
  split at h <;> cases h
  · exact ⟨_, _, rfl⟩
  · exact ⟨_, _, rfl⟩

/-- Where such a step stands and what it counts aside, it leaves what the instruction left. -/
theorem step_touches {now : Int} {status : Status} (h : m.step random now = (.ok status, after)) :
    ∃ i flow k pc completed, m.fetch = .ok i ∧ (m.tick now).execute random i = (.ok flow, k) ∧
      after = { k with pc := pc, completed := completed } := by
  obtain ⟨i, flow, k, hf, hx, hk⟩ := step_ok h
  obtain ⟨pc, completed, hafter⟩ := commit_touches hk
  exact ⟨i, flow, k, pc, completed, hf, hx, hafter⟩

/-! ## Going on -/

theorem target?_skipIf_eq (pc : Nat) (condition : Bool) :
    (Flow.skipIf condition).target? pc = if condition then some (pc + 4) else some (pc + 2) := by
  cases condition <;> rfl

theorem commit_skipIf (m : Machine) (condition : Bool) :
    m.commit (.skipIf condition) = (.advanced, { m with
      pc := if condition then m.pc + 4 else m.pc + 2, completed := m.completed + 1 }) := by
  cases condition <;> rfl

/-- A step that goes on has executed the instruction at the program counter and stands where its
flow leads. -/
theorem step_advanced {now : Int} (h : m.step random now = (.ok .advanced, after)) :
    ∃ i flow k pc, m.fetch = .ok i ∧ (m.tick now).execute random i = (.ok flow, k) ∧
      flow.target? k.pc = some pc ∧ after = { k with pc := pc, completed := k.completed + 1 } := by
  obtain ⟨i, flow, k, hf, hx, hk⟩ := step_ok h
  unfold commit at hk
  split at hk
  · rename_i pc ht
    cases hk
    exact ⟨i, flow, k, pc, hf, hx, ht, rfl⟩
  · cases hk

/-- Nothing but an instruction that finds no key to take holds. -/
theorem hold_of_execute (h : m.execute random i = (.ok .hold, after)) :
    ∃ x, i = .awaitKey x ∧ m.key = none ∧ after = m := by
  have hskip (condition : Bool) : Flow.skipIf condition ≠ .hold := by cases condition <;> nofun
  cases i with
  | ret =>
    obtain ⟨address, stack, -, hflow, -⟩ := ret_ok h
    cases hflow
  | call target =>
    obtain ⟨stack, -, hflow, -⟩ := call_ok h
    cases hflow
  | draw x y rows =>
    obtain ⟨sprite, hit, screen, -, -, hflow, -⟩ := drawSprite_ok h
    cases hflow
  | fill x =>
    obtain ⟨values, -, hflow, -⟩ := fillRegisters_ok h
    cases hflow
  | decimal x =>
    obtain ⟨memory, -, hflow, -⟩ := storeDecimal_ok h
    cases hflow
  | store x =>
    obtain ⟨memory, -, hflow, -⟩ := storeRegisters_ok h
    cases hflow
  | awaitKey x =>
    obtain ⟨hkey, -, rfl⟩ | ⟨key, -, hflow, -⟩ := awaitKey_ok h
    · exact ⟨x, rfl, hkey, rfl⟩
    · cases hflow
  | skipIfByte _ _ | skipUnlessByte _ _ | skipIfSame _ _ | skipUnlessSame _ _ | skipIfKey _
  | skipUnlessKey _ => exact absurd (Except.ok.inj (congrArg Prod.fst h)) (hskip _)
  | _ => cases h

/-- A step that waits has found no key to take, and has changed the timers only. -/
theorem step_waiting {now : Int} (h : m.step random now = (.ok .waitingForKey, after)) :
    ∃ x, m.fetch = .ok (.awaitKey x) ∧ m.key = none ∧ after = m.tick now := by
  obtain ⟨i, flow, k, hf, hx, hk⟩ := step_ok h
  unfold commit at hk
  split at hk
  · cases hk
  · rename_i ht
    have hhold : flow = .hold := by cases flow <;> simp [Flow.target?] at ht ⊢
    subst hhold
    cases hk
    obtain ⟨x, rfl, hkey, rfl⟩ := hold_of_execute hx
    exact ⟨x, hf, hkey, rfl⟩

/-- A block inside memory above the glyphs can be written. -/
theorem step_of_store {x : Fin 16} (hf : m.fetch = .ok (.store x))
    (hx : m.index + x.val + 1 ≤ 4096) (hglyphs : 80 ≤ m.index) (random : RandomBytes) (now : Int) :
    ∃ after, m.step random now = (.ok .advanced, after) ∧ after.pc = m.pc + 2 := by
  rcases hx' : (m.tick now).execute random (.store x) with ⟨e | flow, after⟩
  · have hout := (storeRegisters_eq_error_iff.1 hx').1
    have hindex : (m.tick now).index = m.index := rfl
    omega
  · obtain ⟨memory, -, rfl, rfl⟩ := storeRegisters_ok hx'
    exact ⟨_, step_of_execute hf hx', rfl⟩

/-- A block inside memory can be read. -/
theorem step_of_fill {x : Fin 16} (hf : m.fetch = .ok (.fill x)) (hx : m.index + x.val + 1 ≤ 4096)
    (random : RandomBytes) (now : Int) : ∃ after, m.step random now = (.ok .advanced, after) := by
  rcases hx' : (m.tick now).execute random (.fill x) with ⟨e | flow, after⟩
  · have hout := (fillRegisters_eq_error_iff.1 hx').1
    have hindex : (m.tick now).index = m.index := rfl
    omega
  · obtain ⟨values, -, rfl, -⟩ := fillRegisters_ok hx'
    exact ⟨_, step_of_execute hf hx'⟩

theorem step_of_awaitKey {x : Fin 16} (hf : m.fetch = .ok (.awaitKey x)) (hk : m.key = none)
    (random : RandomBytes) (now : Int) :
    m.step random now = (.ok .waitingForKey, m.tick now) := by
  have hx : (m.tick now).execute random (.awaitKey x) = (.ok .hold, m.tick now) := by
    simp only [execute, awaitKey, tick, hk]
  exact step_of_execute hf hx

theorem step_of_awaitKey_some {x : Fin 16} {key : Key} (hf : m.fetch = .ok (.awaitKey x))
    (hk : m.key = some key) (random : RandomBytes) (now : Int) :
    m.step random now = (.ok .advanced, { m.tick now with
      registers := m.registers.set x (UInt8.ofNat key.digit.val)
      key := none
      pc := m.pc + 2
      completed := m.completed + 1 }) := by
  have hx : (m.tick now).execute random (.awaitKey x) = (.ok .next, { m.tick now with
      registers := m.registers.set x (UInt8.ofNat key.digit.val), key := none }) := by
    simp only [execute, awaitKey, tick, hk]
  exact step_of_execute hf hx

/-! ## Frames -/

/-- What an instruction leaves alone: the configuration, memory outside its own addresses, and the
stack unless it is a call or a return. -/
structure Frame (i : Instruction) (m after : Machine) : Prop where
  config : after.config = m.config
  memory : ∀ a ∉ i.cells m.index, after.memory.byte a = m.memory.byte a
  stack : (∀ target, i ≠ .call target) → i ≠ .ret → after.stack = m.stack

theorem frame_of_execute (h : m.execute random i = (.ok flow, after)) : Frame i m after := by
  cases i with
  | ret =>
    obtain ⟨address, stack, -, -, rfl⟩ := ret_ok h
    exact ⟨rfl, fun _ _ => rfl, fun _ hret => absurd rfl hret⟩
  | call target =>
    obtain ⟨stack, -, -, rfl⟩ := call_ok h
    exact ⟨rfl, fun _ _ => rfl, fun hcall _ => absurd rfl (hcall target)⟩
  | decimal x =>
    obtain ⟨memory, hw, -, rfl⟩ := storeDecimal_ok h
    exact ⟨rfl, fun a ha => Memory.byte_writeBlock (length_decimalDigits _) hw ha,
      fun _ _ => rfl⟩
  | store x =>
    obtain ⟨memory, hw, -, rfl⟩ := storeRegisters_ok h
    exact ⟨rfl, fun a ha => Memory.byte_writeBlock (m.registers.length_upTo x) hw ha,
      fun _ _ => rfl⟩
  | fill x =>
    obtain ⟨values, -, -, rfl⟩ := fillRegisters_ok h
    exact ⟨rfl, fun _ _ => rfl, fun _ _ => rfl⟩
  | draw x y rows =>
    obtain ⟨sprite, hit, screen, -, -, -, rfl⟩ := drawSprite_ok h
    exact ⟨rfl, fun _ _ => rfl, fun _ _ => rfl⟩
  | awaitKey x =>
    obtain ⟨-, -, rfl⟩ | ⟨key, -, -, rfl⟩ := awaitKey_ok h
    · exact ⟨rfl, fun _ _ => rfl, fun _ _ => rfl⟩
    · exact ⟨rfl, fun _ _ => rfl, fun _ _ => rfl⟩
  | _ =>
    cases h
    exact ⟨rfl, fun _ _ => rfl, fun _ _ => rfl⟩

/-- A step fails and has changed the timers only, or it goes through and leaves alone what its
instruction does. -/
theorem step_cases (random : RandomBytes) (m : Machine) (now : Int) :
    (∃ e, m.step random now = (.error e, m.tick now)) ∨
      ∃ i status after, m.fetch = .ok i ∧ m.step random now = (.ok status, after) ∧
        Frame i m after := by
  rcases hs : m.step random now with ⟨e | status, after⟩
  · obtain ⟨f, -, -, rfl⟩ := step_eq_error_iff.1 hs
    exact .inl ⟨e, rfl⟩
  · obtain ⟨i, flow, k, pc, completed, hf, hx, rfl⟩ := step_touches hs
    have hframe := frame_of_execute hx
    exact .inr ⟨i, status, _, hf, rfl, hframe.config, hframe.memory, hframe.stack⟩

end Machine

end ChipVm
