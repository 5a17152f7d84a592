/-
Laws of single instructions. Blocks are read and written at the index, the coordinates of a sprite
come from registers and are therefore never refused, and a block of registers always fits in. For
each instruction of more than one outcome there is one law of what it does if it goes through and
one of when it is refused.
-/
import ChipVm.Machine.Step
import ChipVm.Proofs.Instruction.Words

namespace ChipVm

theorem Registers.length_upTo (r : Registers) (x : Fin 16) : (r.upTo x).length = x.val + 1 := by
  have hx := x.isLt
  simp only [upTo, List.length_take, Vector.length_toList]
  omega

/-- The digit of a key fits in a register. -/
theorem Registers.toNat_get_set_digit (r : Registers) (x : Fin 16) (key : Key) :
    ((r.set x (UInt8.ofNat key.digit.val)).get x).toNat = key.digit.val := by
  have hdigit : key.digit.val < 256 := by omega
  rw [get_set, if_pos rfl]
  exact UInt8.toNat_ofNat_of_lt' hdigit

theorem length_decimalDigits (b : UInt8) : (decimalDigits b).length = 2 + 1 := rfl

namespace Machine

variable {m after : Machine} {f : Fault} {e : Refusal} {flow : Flow}

/-! ## Fetching -/

/-- The word at the program counter, the high byte first. -/
def word (m : Machine) : Word := .ofBytes (m.memory.byte m.pc) (m.memory.byte (m.pc + 1))

theorem fetch_of_le (hp : m.pc ≤ 4094) :
    m.fetch = match Instruction.decode m.word with
      | some i => .ok i
      | none => .error (.invalidWord m.word.toNat (some (m.pc : Int))) := by
  rw [fetch, Memory.fetch_natCast, if_pos hp]
  rfl

theorem fetch_of_lt (hp : 4094 < m.pc) : m.fetch = .error (.invalidAddress m.pc .fetchPastEnd) := by
  rw [fetch, Memory.fetch_natCast, if_neg (by omega)]

theorem fetch_eq_ok_iff {i : Instruction} :
    m.fetch = .ok i ↔ m.pc ≤ 4094 ∧ i.HasWord m.word := by
  rw [← Instruction.decode_eq_some_iff]
  rcases Nat.lt_or_ge 4094 m.pc with hp | hp
  · rw [fetch_of_lt hp]
    simp [Nat.not_le.2 hp]
  · rw [fetch_of_le hp]
    cases Instruction.decode m.word <;> simp [hp]

theorem fetch_eq_error_iff :
    m.fetch = .error f ↔
      4094 < m.pc ∧ f = .invalidAddress m.pc .fetchPastEnd ∨
      m.pc ≤ 4094 ∧ Instruction.decode m.word = none ∧
        f = .invalidWord m.word.toNat (some (m.pc : Int)) := by
  rcases Nat.lt_or_ge 4094 m.pc with hp | hp
  · rw [fetch_of_lt hp]
    simp [hp, Nat.not_le.2 hp, eq_comm]
  · rw [fetch_of_le hp]
    cases Instruction.decode m.word <;> simp [hp, Nat.not_lt.2 hp, eq_comm]

/-! ## Blocks at the index -/

theorem readBlock_index_eq_error_iff {len : Nat} :
    m.memory.readBlock m.index len = .error f ↔
      4096 < m.index + len ∧ f = .invalidAddress m.index .outOfBounds := by
  rw [Memory.readBlock_eq_error_iff, Memory.checkRange_eq_error_iff]
  constructor
  · rintro ⟨h, rfl⟩; exact ⟨by omega, rfl⟩
  · rintro ⟨h, rfl⟩; exact ⟨by omega, rfl⟩

theorem writeBlock_index_eq_error_iff {data : List UInt8} {n : Nat} (hl : data.length = n + 1) :
    m.memory.writeBlock m.index data = .error f ↔
      4096 < m.index + n + 1 ∧ f = .invalidAddress m.index .outOfBounds ∨
      (m.index + n + 1 ≤ 4096 ∧ m.index < 80) ∧ f = .invalidAddress m.index .readOnlyGlyphs := by
  rw [Memory.writeBlock_eq_error_iff, Memory.checkWritable_eq_error_iff, hl]
  constructor
  · rintro (⟨h, rfl⟩ | ⟨h, rfl⟩)
    · exact .inl ⟨by omega, rfl⟩
    · exact .inr ⟨⟨by omega, by omega⟩, rfl⟩
  · rintro (⟨h, rfl⟩ | ⟨h, rfl⟩)
    · exact .inl ⟨by omega, rfl⟩
    · exact .inr ⟨⟨by omega, by omega, by omega, by omega⟩, rfl⟩

theorem readBlock_index_ok {len : Nat} {bs : List UInt8}
    (h : m.memory.readBlock m.index len = .ok bs) : m.index + len ≤ 4096 := by
  refine Nat.le_of_not_lt fun hb => ?_
  rw [readBlock_index_eq_error_iff.2 ⟨hb, rfl⟩] at h
  cases h

theorem writeBlock_index_ok {data : List UInt8} {n : Nat} (hl : data.length = n + 1) {k : Memory}
    (h : m.memory.writeBlock m.index data = .ok k) : m.index + n + 1 ≤ 4096 ∧ 80 ≤ m.index := by
  obtain ⟨start, fits, hs, hg, -⟩ := Memory.writeBlock_ok h
  simp only [List.size_toArray] at fits
  omega

/-! ## Sprites and registers -/

/-- A drawing instruction that finds its sprite goes through: the coordinates are bytes. -/
theorem drawSprite_of_readBlock (x y : Fin 16) {rows : Fin 16} {sprite : List UInt8}
    (h : m.memory.readBlock m.index rows.val = .ok sprite) :
    ∃ hit screen,
      m.screen.draw (m.registers.get x).toNat (m.registers.get y).toNat
        (sprite.map fun b => (b.toNat : Int)) = (.ok hit, screen) ∧
      m.drawSprite x y rows =
        (.ok .next,
          { m with screen := screen, registers := m.registers.setFlag (flagByte hit) }) := by
  have hx := (m.registers.get x).toNat_lt
  obtain ⟨hit, hd⟩ := m.screen.draw_of_inRange (x := (m.registers.get x).toNat)
    (by simp only [Screen.inRange, Bool.and_eq_true, decide_eq_true_eq]; omega)
    (m.registers.get y).toNat (sprite.map fun b => (b.toNat : Int))
  refine ⟨hit, _, Prod.ext hd rfl, ?_⟩
  simp only [drawSprite, h]
  split
  · rename_i hs
    rw [hs] at hd
    cases hd
  · rename_i hs
    rw [hs] at hd ⊢
    cases hd
    rfl

/-- An instruction that finds the block to fill registers from goes through: there are registers
for all of its bytes. -/
theorem fillRegisters_of_readBlock {x : Fin 16} {values : List UInt8}
    (h : m.memory.readBlock m.index (x.val + 1) = .ok values) :
    m.fillRegisters x =
      (.ok .next, { m with
        registers := (m.registers.load (values.map fun b => (b.toNat : Int))).2,
        index := m.indexAfterBlock x }) := by
  have hx := x.isLt
  have hl : values.length = x.val + 1 := (Memory.readBlock_natCast h).2
  have hr := m.registers.load_result (values.map fun b => (b.toNat : Int))
    (by rw [List.length_map]; omega)
  simp only [fillRegisters, h]
  split
  · rename_i hs
    rw [hs] at hr
    cases hr
  · rename_i hs
    rw [hs]

/-! ## Keys -/

theorem keyMatches_iff (m : Machine) (x : Fin 16) :
    m.keyMatches x ↔ m.key.map (·.digit.val) = some (m.registers.get x).toNat := by
  unfold keyMatches
  cases m.key <;> simp

/-! ## Instructions that go through -/

theorem ret_ok (h : m.ret = (.ok flow, after)) :
    ∃ address stack, m.stack.pop? = some (address, stack) ∧ flow = .goto address ∧
      after = { m with stack := stack } := by
  unfold ret at h
  split at h
  · cases h
  · rename_i address stack hpop
    cases h
    exact ⟨_, stack, hpop, rfl, rfl⟩

theorem call_ok {target : Nat} (h : m.call target = (.ok flow, after)) :
    ∃ stack, m.stack.push? (m.pc + 2) = some stack ∧ flow = .goto target ∧
      after = { m with stack := stack } := by
  unfold call at h
  split at h
  · cases h
  · rename_i stack hpush
    cases h
    exact ⟨stack, hpush, rfl, rfl⟩

theorem drawSprite_ok {x y rows : Fin 16} (h : m.drawSprite x y rows = (.ok flow, after)) :
    ∃ sprite hit screen, m.memory.readBlock m.index rows.val = .ok sprite ∧
      m.screen.draw (m.registers.get x).toNat (m.registers.get y).toNat
        (sprite.map fun b => (b.toNat : Int)) = (.ok hit, screen) ∧
      flow = .next ∧
      after = { m with screen := screen, registers := m.registers.setFlag (flagByte hit) } := by
  cases hr : m.memory.readBlock m.index rows.val with
  | error f =>
    simp only [drawSprite, hr] at h
    cases h
  | ok sprite =>
    obtain ⟨hit, screen, hd, hx⟩ := drawSprite_of_readBlock x y hr
    rw [hx] at h
    cases h
    exact ⟨sprite, hit, screen, rfl, hd, rfl, rfl⟩

theorem fillRegisters_ok {x : Fin 16} (h : m.fillRegisters x = (.ok flow, after)) :
    ∃ values, m.memory.readBlock m.index (x.val + 1) = .ok values ∧ flow = .next ∧
      after = { m with
        registers := (m.registers.load (values.map fun b => (b.toNat : Int))).2,
        index := m.indexAfterBlock x } := by
  cases hr : m.memory.readBlock m.index (x.val + 1) with
  | error f =>
    simp only [fillRegisters, hr] at h
    cases h
  | ok values =>
    rw [fillRegisters_of_readBlock hr] at h
    cases h
    exact ⟨values, rfl, rfl, rfl⟩

theorem storeDecimal_ok {x : Fin 16} (h : m.storeDecimal x = (.ok flow, after)) :
    ∃ memory, m.memory.writeBlock m.index (decimalDigits (m.registers.get x)) = .ok memory ∧
      flow = .next ∧ after = { m with memory := memory } := by
  unfold storeDecimal at h
  split at h
  · cases h
  · rename_i memory hw
    cases h
    exact ⟨memory, hw, rfl, rfl⟩

theorem storeRegisters_ok {x : Fin 16} (h : m.storeRegisters x = (.ok flow, after)) :
    ∃ memory, m.memory.writeBlock m.index (m.registers.upTo x) = .ok memory ∧ flow = .next ∧
      after = { m with memory := memory, index := m.indexAfterBlock x } := by
  unfold storeRegisters at h
  split at h
  · cases h
  · rename_i memory hw
    cases h
    exact ⟨memory, hw, rfl, rfl⟩

theorem awaitKey_ok {x : Fin 16} (h : m.awaitKey x = (.ok flow, after)) :
    (m.key = none ∧ flow = .hold ∧ after = m) ∨
    ∃ key, m.key = some key ∧ flow = .next ∧ after = { m with
      registers := m.registers.set x (UInt8.ofNat key.digit.val), key := none } := by
  unfold awaitKey at h
  split at h
  · rename_i hk
    cases h
    exact .inl ⟨hk, rfl, rfl⟩
  · rename_i key hk
    cases h
    exact .inr ⟨key, hk, rfl, rfl⟩

/-! ## Instructions that are refused -/

theorem ret_eq_error_iff :
    m.ret = (.error e, after) ↔
      m.stack.depth = 0 ∧ e = .fault (.stackUnderflow m.pc) ∧ after = m := by
  unfold ret
  rw [← Stack.pop?_eq_none_iff]
  cases hp : m.stack.pop? with
  | none => simp [eq_comm]
  | some popped => simp

theorem call_eq_error_iff {target : Nat} :
    m.call target = (.error e, after) ↔
      m.stack.depth = 16 ∧ e = .fault (.stackOverflow m.pc) ∧ after = m := by
  unfold call
  rw [← @Stack.push?_eq_none_iff m.stack (m.pc + 2)]
  cases hp : m.stack.push? (m.pc + 2) with
  | none => simp [eq_comm]
  | some stack => simp

theorem drawSprite_eq_error_iff {x y rows : Fin 16} :
    m.drawSprite x y rows = (.error e, after) ↔
      4096 < m.index + rows ∧ e = .fault (.invalidAddress m.index .outOfBounds) ∧ after = m := by
  cases hr : m.memory.readBlock m.index rows.val with
  | error f =>
    obtain ⟨hb, rfl⟩ := readBlock_index_eq_error_iff.1 hr
    simp [drawSprite, hr, hb, eq_comm]
  | ok sprite =>
    obtain ⟨hit, screen, -, hx⟩ := drawSprite_of_readBlock x y hr
    simp [hx, Nat.not_lt.2 (readBlock_index_ok hr)]

theorem fillRegisters_eq_error_iff {x : Fin 16} :
    m.fillRegisters x = (.error e, after) ↔
      4096 < m.index + x + 1 ∧ e = .fault (.invalidAddress m.index .outOfBounds) ∧ after = m := by
  rw [Nat.add_assoc]
  cases hr : m.memory.readBlock m.index (x.val + 1) with
  | error f =>
    obtain ⟨hb, rfl⟩ := readBlock_index_eq_error_iff.1 hr
    simp [fillRegisters, hr, hb, eq_comm]
  | ok values => simp [fillRegisters_of_readBlock hr, Nat.not_lt.2 (readBlock_index_ok hr)]

theorem awaitKey_ne_error {x : Fin 16} : m.awaitKey x ≠ (.error e, after) := by
  unfold awaitKey
  split <;> simp

theorem storeDecimal_eq_error_iff {x : Fin 16} :
    m.storeDecimal x = (.error e, after) ↔
      (4096 < m.index + 3 ∧ e = .fault (.invalidAddress m.index .outOfBounds) ∨
        (m.index + 3 ≤ 4096 ∧ m.index < 80) ∧
          e = .fault (.invalidAddress m.index .readOnlyGlyphs)) ∧ after = m := by
  have hl := length_decimalDigits (m.registers.get x)
  cases hw : m.memory.writeBlock m.index (decimalDigits (m.registers.get x)) with
  | error f =>
    obtain ⟨hb, rfl⟩ | ⟨⟨hb, hg⟩, rfl⟩ := (writeBlock_index_eq_error_iff hl).1 hw
    · simp [storeDecimal, hw, hb, Nat.not_le.2 hb, eq_comm]
    · simp [storeDecimal, hw, hb, hg, Nat.not_lt.2 hb, eq_comm]
  | ok memory =>
    obtain ⟨hb, hg⟩ := writeBlock_index_ok hl hw
    simp [storeDecimal, hw, Nat.not_lt.2 hb, Nat.not_lt.2 hg]

theorem storeRegisters_eq_error_iff {x : Fin 16} :
    m.storeRegisters x = (.error e, after) ↔
      (4096 < m.index + x + 1 ∧ e = .fault (.invalidAddress m.index .outOfBounds) ∨
        (m.index + x + 1 ≤ 4096 ∧ m.index < 80) ∧
          e = .fault (.invalidAddress m.index .readOnlyGlyphs)) ∧ after = m := by
  have hl := m.registers.length_upTo x
  cases hw : m.memory.writeBlock m.index (m.registers.upTo x) with
  | error f =>
    obtain ⟨hb, rfl⟩ | ⟨⟨hb, hg⟩, rfl⟩ := (writeBlock_index_eq_error_iff hl).1 hw
    · simp [storeRegisters, hw, hb, Nat.not_le.2 hb, eq_comm]
    · simp [storeRegisters, hw, hb, hg, Nat.not_lt.2 hb, eq_comm]
  | ok memory =>
    obtain ⟨hb, hg⟩ := writeBlock_index_ok hl hw
    simp [storeRegisters, hw, Nat.not_lt.2 hb, Nat.not_lt.2 hg]

end Machine

end ChipVm
