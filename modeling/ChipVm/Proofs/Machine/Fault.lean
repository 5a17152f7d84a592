/-
The faults of a step, stated on the machine before it: which instruction runs into which fault, and
which words at the program counter do. A step fails exactly at these, and no refusal of another
kind ever stops it.
-/
import ChipVm.Host
import ChipVm.Proofs.Machine.Execute

namespace ChipVm.Machine

variable {random : RandomBytes} {m after : Machine} {e : Refusal} {f : Fault}

/-! ## Instructions -/

/-- The fault that an instruction runs into. -/
inductive InstructionFault (m : Machine) : Instruction → Fault → Prop where
  | underflow (h : m.stack.depth = 0) : InstructionFault m .ret (.stackUnderflow m.pc)
  | overflow {target : Nat} (h : m.stack.depth = 16) :
    InstructionFault m (.call target) (.stackOverflow m.pc)
  | drawRange {x y rows : Fin 16} (h : 4096 < m.index + rows) :
    InstructionFault m (.draw x y rows) (.invalidAddress m.index .outOfBounds)
  | fillRange {x : Fin 16} (h : 4096 < m.index + x + 1) :
    InstructionFault m (.fill x) (.invalidAddress m.index .outOfBounds)
  | decimalRange {x : Fin 16} (h : 4096 < m.index + 3) :
    InstructionFault m (.decimal x) (.invalidAddress m.index .outOfBounds)
  | decimalGlyphs {x : Fin 16} (h : m.index + 3 ≤ 4096) (hg : m.index < 80) :
    InstructionFault m (.decimal x) (.invalidAddress m.index .readOnlyGlyphs)
  | storeRange {x : Fin 16} (h : 4096 < m.index + x + 1) :
    InstructionFault m (.store x) (.invalidAddress m.index .outOfBounds)
  | storeGlyphs {x : Fin 16} (h : m.index + x + 1 ≤ 4096) (hg : m.index < 80) :
    InstructionFault m (.store x) (.invalidAddress m.index .readOnlyGlyphs)

/-- An instruction that is refused has run into one of its faults and has changed nothing. -/
theorem fault_of_execute_error {i : Instruction} (h : m.execute random i = (.error e, after)) :
    ∃ f, InstructionFault m i f ∧ e = .fault f ∧ after = m := by
  cases i with
  | ret =>
    obtain ⟨hd, he, ha⟩ := ret_eq_error_iff.1 h
    exact ⟨_, .underflow hd, he, ha⟩
  | call target =>
    obtain ⟨hd, he, ha⟩ := call_eq_error_iff.1 h
    exact ⟨_, .overflow hd, he, ha⟩
  | draw x y rows =>
    obtain ⟨hb, he, ha⟩ := drawSprite_eq_error_iff.1 h
    exact ⟨_, .drawRange hb, he, ha⟩
  | fill x =>
    obtain ⟨hb, he, ha⟩ := fillRegisters_eq_error_iff.1 h
    exact ⟨_, .fillRange hb, he, ha⟩
  | decimal x =>
    obtain ⟨⟨hb, he⟩ | ⟨⟨hb, hg⟩, he⟩, ha⟩ := storeDecimal_eq_error_iff.1 h
    · exact ⟨_, .decimalRange hb, he, ha⟩
    · exact ⟨_, .decimalGlyphs hb hg, he, ha⟩
  | store x =>
    obtain ⟨⟨hb, he⟩ | ⟨⟨hb, hg⟩, he⟩, ha⟩ := storeRegisters_eq_error_iff.1 h
    · exact ⟨_, .storeRange hb, he, ha⟩
    · exact ⟨_, .storeGlyphs hb hg, he, ha⟩
  | awaitKey x => exact absurd h awaitKey_ne_error
  | _ => cases h

/-- In each of its faults an instruction is refused. -/
theorem execute_of_fault {i : Instruction} (h : InstructionFault m i f) :
    m.execute random i = (.error (.fault f), m) := by
  cases h with
  | underflow h => exact ret_eq_error_iff.2 ⟨h, rfl, rfl⟩
  | overflow h => exact call_eq_error_iff.2 ⟨h, rfl, rfl⟩
  | drawRange h => exact drawSprite_eq_error_iff.2 ⟨h, rfl, rfl⟩
  | fillRange h => exact fillRegisters_eq_error_iff.2 ⟨h, rfl, rfl⟩
  | decimalRange h => exact storeDecimal_eq_error_iff.2 ⟨.inl ⟨h, rfl⟩, rfl⟩
  | decimalGlyphs h hg => exact storeDecimal_eq_error_iff.2 ⟨.inr ⟨⟨h, hg⟩, rfl⟩, rfl⟩
  | storeRange h => exact storeRegisters_eq_error_iff.2 ⟨.inl ⟨h, rfl⟩, rfl⟩
  | storeGlyphs h hg => exact storeRegisters_eq_error_iff.2 ⟨.inr ⟨⟨h, hg⟩, rfl⟩, rfl⟩

/-! ## Words -/

/-- The fault that the word at the program counter runs into, or the program counter itself. -/
inductive StepFault (m : Machine) : Fault → Prop where
  | fetch (h : 4094 < m.pc) : StepFault m (.invalidAddress m.pc .fetchPastEnd)
  | underflow (hp : m.pc ≤ 4094) (hw : m.word.family = 0x0 ∧ m.word.low = 0xEE)
    (h : m.stack.depth = 0) : StepFault m (.stackUnderflow m.pc)
  | overflow (hp : m.pc ≤ 4094) (hw : m.word.family = 0x2) (h : m.stack.depth = 16) :
    StepFault m (.stackOverflow m.pc)
  | aluWord (hp : m.pc ≤ 4094) (hw : m.word.family = 0x8)
    (h : m.word.n ∈ ([0x8, 0x9, 0xA, 0xB, 0xC, 0xD, 0xF] : List (Fin 16))) :
    StepFault m (.invalidWord m.word.toNat (some (m.pc : Int)))
  | keypadWord (hp : m.pc ≤ 4094) (hw : m.word.family = 0xE)
    (h : m.word.low ∉ ([0x9E, 0xA1] : List UInt8)) :
    StepFault m (.invalidWord m.word.toNat (some (m.pc : Int)))
  | miscWord (hp : m.pc ≤ 4094) (hw : m.word.family = 0xF)
    (h : m.word.low ∉ ([0x07, 0x0A, 0x15, 0x18, 0x1E, 0x29, 0x33, 0x55, 0x65] : List UInt8)) :
    StepFault m (.invalidWord m.word.toNat (some (m.pc : Int)))
  | drawRange (hp : m.pc ≤ 4094) (hw : m.word.family = 0xD) (h : 4096 < m.index + m.word.n) :
    StepFault m (.invalidAddress m.index .outOfBounds)
  | fillRange (hp : m.pc ≤ 4094) (hw : m.word.family = 0xF ∧ m.word.low = 0x65)
    (h : 4096 < m.index + m.word.x + 1) : StepFault m (.invalidAddress m.index .outOfBounds)
  | decimalRange (hp : m.pc ≤ 4094) (hw : m.word.family = 0xF ∧ m.word.low = 0x33)
    (h : 4096 < m.index + 3) : StepFault m (.invalidAddress m.index .outOfBounds)
  | decimalGlyphs (hp : m.pc ≤ 4094) (hw : m.word.family = 0xF ∧ m.word.low = 0x33)
    (h : m.index + 3 ≤ 4096) (hg : m.index < 0x50) :
    StepFault m (.invalidAddress m.index .readOnlyGlyphs)
  | storeRange (hp : m.pc ≤ 4094) (hw : m.word.family = 0xF ∧ m.word.low = 0x55)
    (h : 4096 < m.index + m.word.x + 1) : StepFault m (.invalidAddress m.index .outOfBounds)
  | storeGlyphs (hp : m.pc ≤ 4094) (hw : m.word.family = 0xF ∧ m.word.low = 0x55)
    (h : m.index + m.word.x + 1 ≤ 4096) (hg : m.index < 0x50) :
    StepFault m (.invalidAddress m.index .readOnlyGlyphs)

theorem stepFault_of_fetch_error (h : m.fetch = .error f) : StepFault m f := by
  obtain ⟨hp, rfl⟩ | ⟨hp, hd, rfl⟩ := fetch_eq_error_iff.1 h
  · exact .fetch hp
  · obtain ⟨hw, hn⟩ | ⟨hw, hl⟩ | ⟨hw, hl⟩ := Instruction.decode_eq_none_iff.1 hd
    · exact .aluWord hp hw hn
    · exact .keypadWord hp hw hl
    · exact .miscWord hp hw hl

theorem stepFault_of_instructionFault {i : Instruction} (hp : m.pc ≤ 4094)
    (hi : i.HasWord m.word) (h : InstructionFault m i f) : StepFault m f := by
  cases h with
  | underflow h => exact .underflow hp hi h
  | overflow h => exact .overflow hp hi.1 h
  | drawRange h => obtain ⟨hw, -, -, rfl⟩ := hi; exact .drawRange hp hw h
  | fillRange h => obtain ⟨hw, hl, rfl⟩ := hi; exact .fillRange hp ⟨hw, hl⟩ h
  | decimalRange h => exact .decimalRange hp ⟨hi.1, hi.2.1⟩ h
  | decimalGlyphs h hg => exact .decimalGlyphs hp ⟨hi.1, hi.2.1⟩ h hg
  | storeRange h => obtain ⟨hw, hl, rfl⟩ := hi; exact .storeRange hp ⟨hw, hl⟩ h
  | storeGlyphs h hg => obtain ⟨hw, hl, rfl⟩ := hi; exact .storeGlyphs hp ⟨hw, hl⟩ h hg

/-- A fault of a step is one of fetching and decoding, or one of the instruction fetched. -/
theorem fetch_or_instruction_of_stepFault (h : StepFault m f) :
    m.fetch = .error f ∨ ∃ i, m.fetch = .ok i ∧ InstructionFault m i f := by
  -- The words of an instruction's faults are those of the instruction, so it is the one fetched.
  cases h with
  | fetch h => exact .inl (fetch_eq_error_iff.2 (.inl ⟨h, rfl⟩))
  | aluWord hp hw h =>
    have hd := Instruction.decode_eq_none_iff.2 (.inl ⟨hw, h⟩)
    exact .inl (fetch_eq_error_iff.2 (.inr ⟨hp, hd, rfl⟩))
  | keypadWord hp hw h =>
    have hd := Instruction.decode_eq_none_iff.2 (.inr (.inl ⟨hw, h⟩))
    exact .inl (fetch_eq_error_iff.2 (.inr ⟨hp, hd, rfl⟩))
  | miscWord hp hw h =>
    have hd := Instruction.decode_eq_none_iff.2 (.inr (.inr ⟨hw, h⟩))
    exact .inl (fetch_eq_error_iff.2 (.inr ⟨hp, hd, rfl⟩))
  | underflow hp hw h => exact .inr ⟨.ret, fetch_eq_ok_iff.2 ⟨hp, hw⟩, .underflow h⟩
  | overflow hp hw h =>
    exact .inr ⟨.call m.word.address, fetch_eq_ok_iff.2 ⟨hp, hw, rfl⟩, .overflow h⟩
  | drawRange hp hw h =>
    exact .inr ⟨.draw m.word.x m.word.y m.word.n, fetch_eq_ok_iff.2 ⟨hp, hw, rfl, rfl, rfl⟩,
      .drawRange h⟩
  | fillRange hp hw h =>
    exact .inr ⟨.fill m.word.x, fetch_eq_ok_iff.2 ⟨hp, hw.1, hw.2, rfl⟩, .fillRange h⟩
  | decimalRange hp hw h =>
    exact .inr ⟨.decimal m.word.x, fetch_eq_ok_iff.2 ⟨hp, hw.1, hw.2, rfl⟩, .decimalRange h⟩
  | decimalGlyphs hp hw h hg =>
    exact .inr ⟨.decimal m.word.x, fetch_eq_ok_iff.2 ⟨hp, hw.1, hw.2, rfl⟩, .decimalGlyphs h hg⟩
  | storeRange hp hw h =>
    exact .inr ⟨.store m.word.x, fetch_eq_ok_iff.2 ⟨hp, hw.1, hw.2, rfl⟩, .storeRange h⟩
  | storeGlyphs hp hw h hg =>
    exact .inr ⟨.store m.word.x, fetch_eq_ok_iff.2 ⟨hp, hw.1, hw.2, rfl⟩, .storeGlyphs h hg⟩

/-- The timers have no part in any fault. -/
theorem StepFault.of_timers {t : Timers} (h : StepFault { m with timers := t } f) :
    StepFault m f := by
  cases h with
  | fetch h => exact .fetch h
  | underflow hp hw h => exact .underflow hp hw h
  | overflow hp hw h => exact .overflow hp hw h
  | aluWord hp hw h => exact .aluWord hp hw h
  | keypadWord hp hw h => exact .keypadWord hp hw h
  | miscWord hp hw h => exact .miscWord hp hw h
  | drawRange hp hw h => exact .drawRange hp hw h
  | fillRange hp hw h => exact .fillRange hp hw h
  | decimalRange hp hw h => exact .decimalRange hp hw h
  | decimalGlyphs hp hw h hg => exact .decimalGlyphs hp hw h hg
  | storeRange hp hw h => exact .storeRange hp hw h
  | storeGlyphs hp hw h hg => exact .storeGlyphs hp hw h hg

theorem stepFault_timers_iff {t : Timers} : StepFault { m with timers := t } f ↔ StepFault m f :=
  ⟨.of_timers, fun h => .of_timers (t := m.timers) h⟩

/-! ## Steps -/

/-- A cycle is refused exactly in the faults of its machine, and one that is refused has changed
nothing. -/
theorem cycle_eq_error_iff :
    m.cycle random = (.error e, after) ↔ ∃ f, StepFault m f ∧ e = .fault f ∧ after = m := by
  constructor
  · intro h
    unfold cycle at h
    split at h
    · rename_i f hf
      cases h
      exact ⟨f, stepFault_of_fetch_error hf, rfl, rfl⟩
    · rename_i i hf
      obtain ⟨hp, hi⟩ := fetch_eq_ok_iff.1 hf
      split at h
      · rename_i hx
        cases h
        obtain ⟨f, hf, rfl, rfl⟩ := fault_of_execute_error hx
        exact ⟨f, stepFault_of_instructionFault hp hi hf, rfl, rfl⟩
      · cases h
  · rintro ⟨f, hf, rfl, rfl⟩
    unfold cycle
    obtain hf | ⟨i, hi, hf⟩ := fetch_or_instruction_of_stepFault hf
    · rw [hf]
    · rw [hi]
      simp only [execute_of_fault hf]

/-- A step is refused exactly in the faults of its machine, and one that is refused has changed
nothing but the timers. -/
theorem step_eq_error_iff {now : Int} :
    m.step random now = (.error e, after) ↔
      ∃ f, StepFault m f ∧ e = .fault f ∧ after = m.tick now := by
  unfold step
  rw [cycle_eq_error_iff]
  simp only [tick, stepFault_timers_iff]

/-- A step fails exactly in the faults of its machine, with the fault and nothing else for its
cause. Where there is none it ends in one of the two ways in which a step can end. -/
theorem step_fails_iff_stepFault (random : RandomBytes) (now : Int) (m : Machine) :
    (∀ e, (m.step random now).1 = .error e ↔ ∃ f, StepFault m f ∧ e = .fault f) ∧
    ((∀ f, ¬StepFault m f) →
      (m.step random now).1 = .ok .advanced ∨ (m.step random now).1 = .ok .waitingForKey) := by
  have hiff : ∀ e, (m.step random now).1 = .error e ↔ ∃ f, StepFault m f ∧ e = .fault f := by
    intro e
    constructor
    · intro h
      obtain ⟨f, hf, he, -⟩ := step_eq_error_iff.1 (Prod.ext h rfl)
      exact ⟨f, hf, he⟩
    · rintro ⟨f, hf, he⟩
      rw [step_eq_error_iff.2 ⟨f, hf, he, rfl⟩]
  refine ⟨hiff, fun hno => ?_⟩
  cases hr : (m.step random now).1 with
  | error e =>
    obtain ⟨f, hf, -⟩ := (hiff e).1 hr
    exact absurd hf (hno f)
  | ok status =>
    cases status with
    | advanced => exact .inl rfl
    | waitingForKey => exact .inr rfl

end ChipVm.Machine
