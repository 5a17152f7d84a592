/-
Where a step goes on. That is told by the word at the program counter and by the registers, the
stack and the pending key as they are before the step. The words that skip come in pairs with
opposite conditions: of two machines with the two words of a pair exactly one skips, and this is all
that tells them apart afterwards.
-/
import ChipVm.Proofs.Machine.Footprint

namespace ChipVm

/-! ## Skips in pairs -/

/-- Words that skip under opposite conditions on the same operands. The last digit of two words that
compare registers does not matter. -/
inductive Word.Opposite (v w : Word) : Prop where
  | byte (hv : v.family = 0x3) (hw : w.family = 0x4) (hx : v.x = w.x) (hlow : v.low = w.low)
  | same (hv : v.family = 0x5) (hw : w.family = 0x9) (hx : v.x = w.x) (hy : v.y = w.y)
  | key (hv : v.family = 0xE ∧ v.low = 0x9E) (hw : w.family = 0xE ∧ w.low = 0xA1) (hx : v.x = w.x)

/-- Instructions that skip under opposite conditions. -/
inductive Instruction.Opposite : Instruction → Instruction → Prop where
  | byte (x : Fin 16) (b : UInt8) : Opposite (.skipIfByte x b) (.skipUnlessByte x b)
  | same (x y : Fin 16) : Opposite (.skipIfSame x y) (.skipUnlessSame x y)
  | key (x : Fin 16) : Opposite (.skipIfKey x) (.skipUnlessKey x)

theorem Word.Opposite.instructions {v w : Word} (h : v.Opposite w) :
    ∃ i j : Instruction, i.Opposite j ∧ i.HasWord v ∧ j.HasWord w := by
  cases h with
  | byte hv hw hx hlow => exact ⟨_, _, .byte v.x v.low, ⟨hv, rfl, rfl⟩, ⟨hw, hx.symm, hlow.symm⟩⟩
  | same hv hw hx hy => exact ⟨_, _, .same v.x v.y, ⟨hv, rfl, rfl⟩, ⟨hw, hx.symm, hy.symm⟩⟩
  | key hv hw hx => exact ⟨_, _, .key v.x, ⟨hv.1, hv.2, rfl⟩, ⟨hw.1, hw.2, hx.symm⟩⟩

namespace Machine

variable {random : RandomBytes} {m k after : Machine} {i j : Instruction} {flow : Flow} {now : Int}

/-! ## Where to go on -/

/-- Whether the word at the program counter skips the next one. -/
def Skips (m : Machine) : Prop :=
  m.word.family = 0x3 ∧ m.registers.get m.word.x = m.word.low ∨
  m.word.family = 0x4 ∧ m.registers.get m.word.x ≠ m.word.low ∨
  m.word.family = 0x5 ∧ m.registers.get m.word.x = m.registers.get m.word.y ∨
  m.word.family = 0x9 ∧ m.registers.get m.word.x ≠ m.registers.get m.word.y ∨
  m.word.family = 0xE ∧ m.word.low = 0x9E ∧
    m.key.map (·.digit.val) = some (m.registers.get m.word.x).toNat ∨
  m.word.family = 0xE ∧ m.word.low = 0xA1 ∧
    m.key.map (·.digit.val) ≠ some (m.registers.get m.word.x).toNat

instance (m : Machine) : Decidable m.Skips := by
  unfold Skips
  infer_instance

/-- Where a machine goes on if it does; a jump by an offset may lead past the end of memory. -/
def nextPc? (m : Machine) : Option Nat :=
  if m.word.family = 0x1 ∨ m.word.family = 0x2 then some m.word.address
  else if m.word.family = 0xB then some (m.word.address + (m.registers.get 0).toNat)
  else if m.word.family = 0x0 ∧ m.word.low = 0xEE then m.stack.live.getLast?
  else if m.Skips then some (m.pc + 4)
  else some (m.pc + 2)

/-- The words of these families neither jump nor skip. -/
theorem nextPc?_of_family
    (h : m.word.family ∈ ([0x6, 0x7, 0x8, 0xA, 0xC, 0xD, 0xF] : List (Fin 16))) :
    m.nextPc? = some (m.pc + 2) := by
  simp only [List.mem_cons, List.not_mem_nil, or_false] at h
  rcases h with h | h | h | h | h | h | h <;> simp [nextPc?, Skips, h]

/-- An instruction that does not hold leads where its word does. -/
theorem nextPc?_of_execute (hi : i.HasWord m.word) (h : m.execute random i = (.ok flow, after))
    {pc : Nat} (ht : flow.target? m.pc = some pc) : m.nextPc? = some pc := by
  rw [← ht]
  cases i with
  | jump target | jumpOffset target =>
    cases h
    simp [nextPc?, hi.1, hi.2, Flow.target?]
  | call target =>
    obtain ⟨stack, -, rfl, -⟩ := call_ok h
    simp [nextPc?, hi.1, hi.2, Flow.target?]
  | ret =>
    obtain ⟨address, stack, hpop, rfl, -⟩ := ret_ok h
    have hlast : m.stack.live.getLast? = some address := by
      rw [Stack.live_pop? hpop, List.getLast?_concat]
    simp [nextPc?, hi.1, hi.2, hlast, Flow.target?]
  | skipIfByte x byte | skipUnlessByte x byte | skipIfSame x byte | skipUnlessSame x byte =>
    obtain ⟨hfamily, rfl, rfl⟩ := hi
    cases h
    simp [nextPc?, Skips, hfamily, target?_skipIf_eq]
  | skipIfKey x =>
    obtain ⟨hfamily, hlow, rfl⟩ := hi
    cases h
    have hskips : m.Skips ↔ m.keyMatches m.word.x := by
      rw [keyMatches_iff]
      simp [Skips, hfamily, hlow]
    simp [nextPc?, hskips, hfamily, target?_skipIf_eq]
  | skipUnlessKey x =>
    obtain ⟨hfamily, hlow, rfl⟩ := hi
    cases h
    have hskips : m.Skips ↔ ¬m.keyMatches m.word.x := by
      rw [keyMatches_iff]
      simp [Skips, hfamily, hlow]
    simp [nextPc?, hskips, hfamily, target?_skipIf_eq]
  | clearScreen =>
    cases h
    simp [nextPc?, Skips, hi.1, hi.2, Flow.target?]
  | ignored =>
    cases h
    simp [nextPc?, Skips, hi.1, hi.2.2, Flow.target?]
  | draw x y rows =>
    obtain ⟨sprite, hit, screen, -, -, rfl, -⟩ := drawSprite_ok h
    exact nextPc?_of_family (by simp [hi.1])
  | fill x =>
    obtain ⟨values, -, rfl, -⟩ := fillRegisters_ok h
    exact nextPc?_of_family (by simp [hi.1])
  | decimal x =>
    obtain ⟨memory, -, rfl, -⟩ := storeDecimal_ok h
    exact nextPc?_of_family (by simp [hi.1])
  | store x =>
    obtain ⟨memory, -, rfl, -⟩ := storeRegisters_ok h
    exact nextPc?_of_family (by simp [hi.1])
  | awaitKey x =>
    obtain ⟨-, rfl, -⟩ | ⟨key, -, rfl, -⟩ := awaitKey_ok h
    · cases ht
    · exact nextPc?_of_family (by simp [hi.1])
  | _ =>
    cases h
    exact nextPc?_of_family (by simp [hi.1])

theorem nextPc?_of_step (h : m.step random now = (.ok .advanced, after)) :
    m.nextPc? = some after.pc := by
  obtain ⟨i, flow, k, pc, hf, hx, ht, rfl⟩ := step_advanced h
  obtain ⟨-, hi⟩ := fetch_eq_ok_iff.1 hf
  rw [(footprint_of_execute hx).pc] at ht
  exact nextPc?_of_execute (m := m.tick now) hi hx ht

/-! ## Machines apart in one word -/

/-- Whether two machines differ in the word at an address only. -/
def SameButWord (p : Nat) (m k : Machine) : Prop :=
  ∃ memory : Memory, k = { m with memory := memory } ∧
    ∀ a, a ≠ p → a ≠ p + 1 → memory.byte a = m.memory.byte a

/-- Opposite instructions skip in turns, whatever stands in memory, and do the same otherwise: they
take the key if they look at it. -/
theorem execute_opposite (h : i.Opposite j) (random : RandomBytes) (m : Machine)
    (memory : Memory) :
    ∃ condition key,
      m.execute random i = (.ok (.skipIf condition), { m with key := key }) ∧
      Machine.execute random { m with memory := memory } j =
        (.ok (.skipIf !condition), { m with memory := memory, key := key }) := by
  cases h with
  | byte x b => exact ⟨m.registers.get x == b, m.key, rfl, rfl⟩
  | same x y => exact ⟨m.registers.get x == m.registers.get y, m.key, rfl, rfl⟩
  | key x => exact ⟨m.keyMatches x, none, rfl, rfl⟩

theorem step_opposite (hp : m.pc ≤ 4094) (hmk : SameButWord m.pc m k)
    (hwords : m.word.Opposite k.word) (random : RandomBytes) (now : Int) :
    ∃ after after', m.step random now = (.ok .advanced, after) ∧
      k.step random now = (.ok .advanced, after') ∧
      (after.pc = m.pc + 4 ∧ after'.pc = m.pc + 2 ∨ after.pc = m.pc + 2 ∧ after'.pc = m.pc + 4) ∧
      SameButWord m.pc { after with pc := after'.pc } after' := by
  obtain ⟨i, j, hij, hi, hj⟩ := hwords.instructions
  obtain ⟨memory, rfl, hmemory⟩ := hmk
  obtain ⟨condition, key, hx, hx'⟩ := execute_opposite hij random (m.tick now) memory
  have hs := step_of_execute (fetch_eq_ok_iff.2 ⟨hp, hi⟩) hx
  have hs' := step_of_execute (m := { m with memory := memory }) (fetch_eq_ok_iff.2 ⟨hp, hj⟩) hx'
  rw [commit_skipIf] at hs hs'
  refine ⟨_, _, hs, hs', ?_, memory, rfl, hmemory⟩
  cases condition with
  | true => exact .inl ⟨rfl, rfl⟩
  | false => exact .inr ⟨rfl, rfl⟩

/-- A step that goes on stands where its word leads. Of two machines that differ in nothing but the
word at the program counter, where they have opposite words, both go on and exactly one of them
skips; where they stand and that word aside, they are the same afterwards. -/
theorem next_pc_and_opposite_skips (random : RandomBytes) (now : Int) :
    (∀ {m after : Machine}, m.step random now = (.ok .advanced, after) →
      m.nextPc? = some after.pc) ∧
    ∀ {m k : Machine}, m.pc ≤ 4094 → SameButWord m.pc m k → m.word.Opposite k.word →
      ∃ after after', m.step random now = (.ok .advanced, after) ∧
        k.step random now = (.ok .advanced, after') ∧
        (after.pc = m.pc + 4 ∧ after'.pc = m.pc + 2 ∨
          after.pc = m.pc + 2 ∧ after'.pc = m.pc + 4) ∧
        SameButWord m.pc { after with pc := after'.pc } after' :=
  ⟨nextPc?_of_step, fun hp hmk hwords => step_opposite hp hmk hwords random now⟩

/-- A machine with seven in `V1`, about to execute a word that looks at it. -/
def looksForSeven (high : UInt8) : Machine :=
  { new {} with
    memory := Memory.initial.overlay 0x200 #[high, 0x07] (by simp)
    registers := Registers.zero.set 1 7 }

theorem seven_skips_and_does_not :
    ∃ after after', (looksForSeven 0x31).step (fun _ => 0) 0 = (.ok .advanced, after) ∧
      (looksForSeven 0x41).step (fun _ => 0) 0 = (.ok .advanced, after') ∧
      SameButWord 0x200 (looksForSeven 0x31) (looksForSeven 0x41) ∧
      SameButWord 0x200 { after with pc := after'.pc } after' ∧
      after.pc = 0x204 ∧ after'.pc = 0x202 := by
  have hf : (looksForSeven 0x31).fetch = .ok (.skipIfByte 1 7) :=
    fetch_of_overlay (p := 0x200) ⟨by decide, rfl⟩ rfl (by decide) rfl rfl ⟨rfl, rfl, rfl⟩
  have hf' : (looksForSeven 0x41).fetch = .ok (.skipUnlessByte 1 7) :=
    fetch_of_overlay (p := 0x200) ⟨by decide, rfl⟩ rfl (by decide) rfl rfl ⟨rfl, rfl, rfl⟩
  obtain ⟨hp, hfamily, hx, hlow⟩ := fetch_eq_ok_iff.1 hf
  obtain ⟨-, hfamily', hx', hlow'⟩ := fetch_eq_ok_iff.1 hf'
  have hwords : (looksForSeven 0x31).word.Opposite (looksForSeven 0x41).word :=
    .byte hfamily hfamily' (hx.trans hx'.symm) (hlow.trans hlow'.symm)
  have hsame : SameButWord 0x200 (looksForSeven 0x31) (looksForSeven 0x41) := by
    refine ⟨(looksForSeven 0x41).memory, rfl, fun a ha ha' => ?_⟩
    have hkept (high : UInt8) : (looksForSeven high).memory.byte a = Memory.initial.byte a := by
      have hout : a ∉ List.range' 0x200 #[high, 0x07].size := by
        rw [List.mem_range'_1, List.size_toArray, List.length_cons, List.length_singleton]
        omega
      rw [looksForSeven, Memory.byte_overlay_of_notMem hout]
    rw [hkept, hkept]
  obtain ⟨hnext, hopposite⟩ := next_pc_and_opposite_skips (fun _ => 0) 0
  obtain ⟨after, after', hs, hs', hpcs, hafter⟩ := hopposite hp hsame hwords
  have hskips : (looksForSeven 0x31).Skips := .inl ⟨hfamily, by rw [hx, hlow]; rfl⟩
  have hpc : some 0x204 = some after.pc := by
    have hhere : (looksForSeven 0x31).pc = 0x200 := rfl
    rw [← hnext hs]
    simp [nextPc?, hfamily, hskips, hhere]
  refine ⟨after, after', hs, hs', hsame, hafter, (Option.some.inj hpc).symm, ?_⟩
  obtain ⟨-, h⟩ | ⟨h, -⟩ := hpcs
  · exact h
  · rw [h] at hpc
    cases hpc

end Machine

end ChipVm
