/-
Decimal digits in memory. The hundreds, tens and ones of a register are written to three bytes at
the index, which stays where it is under either rule for blocks. As long as the bytes are still
there, filling three registers from the same index brings the number back.
-/
import ChipVm.Proofs.Machine.Blocks

namespace ChipVm

/-! ## Digits -/

/-- Whether the decimal digits of a number below a thousand lie at an address, one a byte. -/
structure Memory.DecimalAt (m : Memory) (a n : Nat) : Prop where
  hundreds : (m.byte a).toNat ≤ 9
  tens : (m.byte (a + 1)).toNat ≤ 9
  ones : (m.byte (a + 2)).toNat ≤ 9
  value : 100 * (m.byte a).toNat + 10 * (m.byte (a + 1)).toNat + (m.byte (a + 2)).toNat = n

theorem Memory.decimalAt_of_bytesFrom {m : Memory} {a : Nat} {b : UInt8}
    (h : m.bytesFrom a 3 = decimalDigits b) : m.DecimalAt a b.toNat := by
  have hthree : m.bytesFrom a 3 = [m.byte a, m.byte (a + 1), m.byte (a + 2)] := rfl
  rw [hthree, decimalDigits] at h
  obtain ⟨hhundreds, hrest⟩ := List.cons.inj h
  obtain ⟨htens, hrest⟩ := List.cons.inj hrest
  obtain ⟨hones, -⟩ := List.cons.inj hrest
  have hb := b.toNat_lt
  have hhundreds : (m.byte a).toNat = b.toNat / 100 := by
    rw [hhundreds, UInt8.toNat_div]
    rfl
  have htens : (m.byte (a + 1)).toNat = b.toNat / 10 % 10 := by
    rw [htens, UInt8.toNat_mod, UInt8.toNat_div]
    rfl
  have hones : (m.byte (a + 2)).toNat = b.toNat % 10 := by
    rw [hones, UInt8.toNat_mod]
    rfl
  constructor <;> omega

theorem Memory.DecimalAt.congr {m k : Memory} {a n : Nat} (h : m.DecimalAt a n)
    (hbytes : ∀ j < 3, k.byte (a + j) = m.byte (a + j)) : k.DecimalAt a n := by
  have h0 : k.byte a = m.byte a := hbytes 0 (by omega)
  have h1 : k.byte (a + 1) = m.byte (a + 1) := hbytes 1 (by omega)
  have h2 : k.byte (a + 2) = m.byte (a + 2) := hbytes 2 (by omega)
  exact ⟨h0 ▸ h.hundreds, h1 ▸ h.tens, h2 ▸ h.ones, by rw [h0, h1, h2, h.value]⟩

namespace Machine

variable {random : RandomBytes} {m after : Machine} {x : Fin 16} {now : Int} {status : Status}

/-! ## Storing and reading -/

/-- What storing the digits of a register leaves behind. -/
structure StoredDecimal (x : Fin 16) (m after : Machine) : Prop where
  bound : 0x50 ≤ m.index ∧ m.index ≤ 4093
  digits : after.memory.DecimalAt m.index (m.registers.get x).toNat
  others : ∀ a, a < m.index ∨ m.index + 3 ≤ a → after.memory.byte a = m.memory.byte a
  registers : after.registers = m.registers
  index : after.index = m.index

theorem storedDecimal_of_step (hf : m.fetch = .ok (.decimal x))
    (h : m.step random now = (.ok status, after)) : StoredDecimal x m after := by
  obtain ⟨i, flow, k, pc, completed, hf', hx, rfl⟩ := step_touches h
  obtain rfl : i = .decimal x := Except.ok.inj (hf'.symm.trans hf)
  have hothers := (frame_of_execute hx).memory
  obtain ⟨memory, hw, -, rfl⟩ := storeDecimal_ok hx
  obtain ⟨hend, hstart⟩ := writeBlock_index_ok (length_decimalDigits _) hw
  have hindex : (m.tick now).index = m.index := rfl
  refine ⟨by omega, Memory.decimalAt_of_bytesFrom (Memory.bytesFrom_writeBlock hw),
    fun a ha => hothers a fun hmem => ?_, rfl, rfl⟩
  rw [Instruction.cells, List.mem_range'_1] at hmem
  omega

/-- The digits can be stored inside memory above the glyphs. -/
theorem step_of_decimal (hf : m.fetch = .ok (.decimal x)) (hx : 0x50 ≤ m.index ∧ m.index ≤ 4093)
    (random : RandomBytes) (now : Int) :
    ∃ after, m.step random now = (.ok .advanced, after) ∧ after.pc = m.pc + 2 := by
  rcases hx' : (m.tick now).execute random (.decimal x) with ⟨e | flow, after⟩
  · have hout := (storeDecimal_eq_error_iff.1 hx').1
    have hindex : (m.tick now).index = m.index := rfl
    omega
  · obtain ⟨memory, -, rfl, rfl⟩ := storeDecimal_ok hx'
    exact ⟨_, step_of_execute hf hx', rfl⟩

/-- Three registers filled from where the digits of a number lie. -/
theorem Filled.decimal {n : Nat} (h : Filled 2 m after) (hdigits : m.memory.DecimalAt m.index n) :
    100 * (after.registers.get 0).toNat + 10 * (after.registers.get 1).toNat +
      (after.registers.get 2).toNat = n := by
  rw [h.registers 0 (by decide), h.registers 1 (by decide), h.registers 2 (by decide)]
  exact hdigits.value

/-- The digits of a register are stored exactly if the index leaves room for three bytes between the
glyphs and the end of memory. Then they are decimal digits and give the number in the register; no
other byte, no register and not the index has changed. Wherever a machine with this index, such as
the same one later on, still holds the three bytes, filling three registers gives the number. -/
theorem decimal_digits_stored_and_read (random : RandomBytes) :
    (∀ {m : Machine} (now : Int), m.pc ≤ 4094 → m.word.family = 0xF ∧ m.word.low = 0x33 →
      ((∃ after, m.step random now = (.ok .advanced, after)) ↔
        0x50 ≤ m.index ∧ m.index ≤ 4093)) ∧
    (∀ {m after : Machine} {now : Int} {status : Status},
      m.word.family = 0xF ∧ m.word.low = 0x33 → m.step random now = (.ok status, after) →
      StoredDecimal m.word.x m after) ∧
    ∀ {m after later : Machine} {now : Int} {status : Status},
      m.word.family = 0xF ∧ m.word.low = 0x33 → m.step random now = (.ok status, after) →
      later.index = m.index →
      (∀ j < 3, later.memory.byte (m.index + j) = after.memory.byte (m.index + j)) →
      later.pc ≤ 4094 → later.word.family = 0xF ∧ later.word.x = 2 ∧ later.word.low = 0x65 →
      ∀ now', ∃ filled, later.step random now' = (.ok .advanced, filled) ∧
        100 * (filled.registers.get 0).toNat + 10 * (filled.registers.get 1).toNat +
          (filled.registers.get 2).toNat = (m.registers.get m.word.x).toNat := by
  have hstored {m after : Machine} {now : Int} {status : Status}
      (hw : m.word.family = 0xF ∧ m.word.low = 0x33) (h : m.step random now = (.ok status, after)) :
      StoredDecimal m.word.x m after :=
    storedDecimal_of_step (fetch_eq_ok_iff.2 ⟨pc_le_of_step h, hw.1, hw.2, rfl⟩) h
  refine ⟨fun {m} now hpc hw => ⟨?_, fun hindex => ?_⟩, hstored, ?_⟩
  · rintro ⟨after, hs⟩
    exact (hstored hw hs).bound
  · obtain ⟨after, hs, -⟩ :=
      step_of_decimal (fetch_eq_ok_iff.2 ⟨hpc, hw.1, hw.2, rfl⟩) hindex random now
    exact ⟨after, hs⟩
  · intro m after later now status hw hs hindex hbytes hpc hw' now'
    obtain ⟨hbound, hdigits, -, -, -⟩ := hstored hw hs
    have hfill : later.fetch = .ok (.fill 2) :=
      fetch_eq_ok_iff.2 ⟨hpc, hw'.1, hw'.2.2, hw'.2.1⟩
    have htwo : (2 : Fin 16).val = 2 := rfl
    obtain ⟨filled, hf⟩ := step_of_fill hfill (by omega) random now'
    refine ⟨filled, hf, (filled_of_step hfill hf).decimal ?_⟩
    rw [hindex]
    exact hdigits.congr hbytes

/-- A machine about to store the digits of a register, to set it to zero and to read them back. -/
def storingDigits : Machine :=
  { new { block := .increment } with
    memory := Memory.initial.overlay 0x200 #[0xF4, 0x33, 0x64, 0x00, 0xF2, 0x65] (by decide)
    registers := Registers.zero.set 4 254
    index := 0x300 }

theorem digits_read_after_load :
    ∃ stored later filled, storingDigits.step (fun _ => 0) 0 = (.ok .advanced, stored) ∧
      StoredDecimal 4 storingDigits stored ∧
      stored.step (fun _ => 0) 1 = (.ok .advanced, later) ∧ later.registers.get 4 = 0 ∧
      later.step (fun _ => 0) 2 = (.ok .advanced, filled) ∧
      100 * (filled.registers.get 0).toNat + 10 * (filled.registers.get 1).toNat +
        (filled.registers.get 2).toNat = 254 := by
  obtain ⟨-, hstored, hread⟩ := decimal_digits_stored_and_read fun _ => 0
  have hm : ∃ fits, storingDigits.memory =
      Memory.initial.overlay 0x200 #[0xF4, 0x33, 0x64, 0x00, 0xF2, 0x65] fits := ⟨by decide, rfl⟩
  have hf : storingDigits.fetch = .ok (.decimal 4) :=
    fetch_of_overlay (p := 0x200) hm rfl (by decide) rfl rfl ⟨rfl, rfl, rfl⟩
  obtain ⟨-, hfamily, hlow, hregister⟩ := fetch_eq_ok_iff.1 hf
  obtain ⟨stored, hs, hnext⟩ := step_of_decimal hf (by decide) (fun _ => 0) 0
  have hdigits : StoredDecimal 4 storingDigits stored := hregister ▸ hstored ⟨hfamily, hlow⟩ hs
  -- The digits do not reach the words to come.
  have hfetch {k : Machine} {p : Nat} (hmemory : k.memory = stored.memory) (hpc : k.pc = p)
      (hp : p + 1 < 0x300) : k.fetch = fetch { storingDigits with pc := p } := by
    refine fetch_of_bytes hpc fun q _ hq => ?_
    rw [hmemory]
    exact hdigits.others q (.inl (Nat.lt_of_le_of_lt hq hp))
  have hload : stored.fetch = .ok (.loadByte 4 0) := by
    rw [hfetch rfl hnext (by decide)]
    exact fetch_of_overlay (p := 0x202) hm rfl (by decide) rfl rfl ⟨rfl, rfl, rfl⟩
  obtain ⟨later, hl, hregisters, hmemory, hindex, hpc'⟩ : ∃ later,
      stored.step (fun _ => 0) 1 = (.ok .advanced, later) ∧
      later.registers = stored.registers.set 4 0 ∧ later.memory = stored.memory ∧
      later.index = stored.index ∧ later.pc = stored.pc + 2 :=
    ⟨_, step_of_execute hload rfl, rfl, rfl, rfl, rfl⟩
  have hfill : later.fetch = .ok (.fill 2) := by
    rw [hfetch hmemory (by rw [hpc', hnext]) (by decide)]
    exact fetch_of_overlay (p := 0x204) hm rfl (by decide) rfl rfl ⟨rfl, rfl, rfl⟩
  obtain ⟨hpc'', hfamily', hlow', hregister'⟩ := fetch_eq_ok_iff.1 hfill
  obtain ⟨filled, hfilled, hvalue⟩ := hread ⟨hfamily, hlow⟩ hs (hindex.trans hdigits.index)
    (fun j _ => by rw [hmemory]) hpc'' ⟨hfamily', hregister', hlow'⟩ 2
  refine ⟨stored, later, filled, hs, hdigits, hl, ?_, hfilled, ?_⟩
  · rw [hregisters, Registers.get_set, if_pos rfl]
  · rw [hvalue, hregister]
    rfl

end Machine

end ChipVm
