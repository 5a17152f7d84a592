/-
What the choices of a configuration do. The operand of the shifts matters to shifts of registers
that differ, and the move of the index to block transfers; as long as none of these is executed,
machines that differ in these choices take the same course. A block transfer leaves them alike but
for the index, which one has moved past the block.
-/
import ChipVm.Proofs.Machine.Independence
import ChipVm.Proofs.Machine.Simulation

namespace ChipVm

namespace Machine

variable {random : RandomBytes} {m after : Machine} {i : Instruction} {c d : Config} {now : Int}

/-- The machine with another configuration. -/
def withConfig (m : Machine) (config : Config) : Machine := { m with config := config }

/-- The machine with another choice of what block transfers do to the index. -/
def withBlock (m : Machine) (block : BlockIndex) : Machine :=
  m.withConfig { m.config with block := block }

/-! ## Two configurations -/

theorem execute_withConfig (hsame : ∀ flow after, m.execute random i = (.ok flow, after) →
      ¬i.TellsApart m.registers m.config d) :
    (m.withConfig d).execute random i =
      ((m.execute random i).1, (m.execute random i).2.withConfig d) := by
  apply execute_changed (f := { config := fun _ => d })
  case hconfig => exact hsame
  case htimers => exact fun _ => rfl
  case hstack => exact fun _ => rfl
  case hkey => exact fun _ => rfl
  case hdrawn => exact fun _ => ⟨rfl, rfl⟩

theorem reset_withConfig (m : Machine) (d : Config) :
    (m.withConfig d).reset = m.reset.withConfig d := by
  cases m
  rfl

/-- Machines under two configurations go on alike up to the first instruction that tells these
apart. -/
theorem simulation_withConfig (random : RandomBytes) (c d : Config) :
    Simulation random random Eq
      (fun x => ∀ i, x.executed? random = some i → ¬i.TellsApart x.machine.registers c d)
      (fun m k => m.config = c ∧ k = m.withConfig d) where
  fetch := by
    rintro m _ ⟨-, rfl⟩
    rfl
  pc := by
    rintro m _ ⟨-, rfl⟩
    rfl
  goOn := by
    rintro m _ pc ⟨hc, rfl⟩
    exact ⟨hc, rfl⟩
  tick := by
    rintro m _ now _ ⟨hc, rfl⟩ rfl
    exact ⟨hc, rfl⟩
  execute := by
    rintro m _ now _ i ⟨rfl, rfl⟩ rfl hallowed hf
    have hx : ((m.tick now).withConfig d).execute random i = _ :=
      execute_withConfig fun flow after hx =>
        hallowed i (Moment.executed?_step_ok hf (step_of_execute hf hx))
    have htick : (m.withConfig d).tick now = (m.tick now).withConfig d := rfl
    rw [htick, hx]
    exact ⟨rfl, (footprint_execute random (m.tick now) i).config, rfl⟩
  other := by
    rintro m _ command ⟨rfl, rfl⟩ (hc | rfl) -
    · have hx : (m.withConfig d).perform random command = _ :=
        perform_changed (f := { config := fun _ => d }) random random hc (fun _ => rfl) fun _ => rfl
      have hkept : (m.perform random command).2.config = m.config :=
        config_performAll random m [command]
      rw [hx]
      exact ⟨rfl, hkept, rfl⟩
    · rw [perform, perform, reset_withConfig]
      exact ⟨rfl, config_reset m, rfl⟩

/-! ## Block transfers -/

/-- A block transfer goes through under either choice, or under none. -/
theorem execute_withBlock {x : Fin 16} (hi : i = .store x ∨ i = .fill x) {flow : Flow}
    (h : m.execute random i = (.ok flow, after)) (block : BlockIndex) :
    flow = .next ∧ m.index + x.val + 1 ≤ 4096 ∧ (m.withBlock block).execute random i =
      (.ok .next, { after.withBlock block with
        index := (m.withBlock block).indexAfterBlock x }) := by
  rcases hi with rfl | rfl
  · obtain ⟨memory, hw, rfl, rfl⟩ := storeRegisters_ok h
    have hw' : (m.withBlock block).memory.writeBlock (m.withBlock block).index
        ((m.withBlock block).registers.upTo x) = .ok memory := hw
    refine ⟨rfl, (writeBlock_index_ok (m.registers.length_upTo x) hw).1, ?_⟩
    simp only [execute, storeRegisters, hw']
    rfl
  · obtain ⟨values, hr, rfl, rfl⟩ := fillRegisters_ok h
    exact ⟨rfl, readBlock_index_ok hr, fillRegisters_of_readBlock (m := m.withBlock block) hr⟩

theorem step_withBlock {x : Fin 16} (hf : m.fetch = .ok (.store x) ∨ m.fetch = .ok (.fill x))
    {status : Status} (h : m.step random now = (.ok status, after)) (block : BlockIndex) :
    m.index + x.val + 1 ≤ 4096 ∧ (m.withBlock block).step random now =
      (.ok status, { after.withBlock block with
        index := (m.withBlock block).indexAfterBlock x }) := by
  obtain ⟨i, flow, k, hf', hx, hk⟩ := step_ok h
  have hi : i = .store x ∨ i = .fill x := by
    rw [hf'] at hf
    exact hf.imp Except.ok.inj Except.ok.inj
  obtain ⟨rfl, hle, hx'⟩ := execute_withBlock hi hx block
  cases hk
  exact ⟨hle, step_of_execute (m := m.withBlock block) hf' hx'⟩

/-- The choices of a configuration act through the instructions that they are about and through no
other. Machines that differ in nothing but the configuration take the same course as long as no step
that goes through is a shift of registers that differ, if the operand is chosen differently, nor a
block transfer, if the move of the index is. A block transfer that goes through leaves the index
apart, by the length of the block, and nothing else. -/
theorem choices_act_through_their_instructions (random : RandomBytes) :
    (∀ {m : Machine} {config : Config} {cs : List Command},
      (m.config.shift ≠ config.shift → ∀ x ∈ m.moments random cs, ∀ a b,
        x.executed? random = some (.alu .shiftRight a b) ∨
          x.executed? random = some (.alu .shiftLeft a b) →
        x.machine.registers.get a = x.machine.registers.get b) →
      (m.config.block ≠ config.block → ∀ x ∈ m.moments random cs, ∀ a,
        x.executed? random ≠ some (.store a) ∧ x.executed? random ≠ some (.fill a)) →
      SameCourse random random (fun m k => k = m.withConfig config) m (m.withConfig config) cs cs) ∧
    ∀ {m after : Machine} {x : Fin 16} {now : Int} {status : Status},
      m.fetch = .ok (.store x) ∨ m.fetch = .ok (.fill x) →
      m.step random now = (.ok status, after) →
      ∃ kept, (m.withBlock .keep).step random now = (.ok status, kept) ∧
        (m.withBlock .increment).step random now =
          (.ok status, { kept.withBlock .increment with index := kept.index + x.val + 1 }) := by
  constructor
  · intro m config cs hshift hblock
    have hallowed : ∀ x ∈ m.moments random cs, ∀ i, x.executed? random = some i →
        ¬i.TellsApart x.machine.registers m.config config := by
      intro x hx i hi
      unfold Instruction.TellsApart
      split
      · rintro ⟨hne, hapart⟩
        exact hapart (hshift hne x hx _ _ (.inl hi))
      · rintro ⟨hne, hapart⟩
        exact hapart (hshift hne x hx _ _ (.inr hi))
      · exact fun hne => (hblock hne x hx _).1 hi
      · exact fun hne => (hblock hne x hx _).2 hi
      · exact id
    obtain ⟨hanswers, hmoments, hfinal⟩ := (simulation_withConfig random m.config config).sameCourse
      ⟨rfl, rfl⟩ (Command.forall₂_retimed_refl cs) hallowed
    exact ⟨hanswers, hmoments.imp fun _ _ h => h.2, hfinal.2⟩
  · intro m after x now status hf h
    obtain ⟨hle, hkeep⟩ := step_withBlock hf h .keep
    obtain ⟨-, hincrement⟩ := step_withBlock hf h .increment
    have hindex : (m.withBlock .increment).indexAfterBlock x = m.index + x.val + 1 := by
      have hlt : m.index + x.val + 1 < 65536 := by omega
      exact Nat.mod_eq_of_lt hlt
    rw [hindex] at hincrement
    exact ⟨_, hkeep, hincrement⟩

/-- A machine about to shift a register by another one of the same value. -/
def shiftsAlike : Machine :=
  { new {} with
    memory := Memory.initial.overlay 0x200 #[0x80, 0x16, 0xF1, 0x65] (by decide)
    registers := (Registers.zero.set 0 6).set 1 6 }

/-- The same machine at the word behind, which fills the two registers. -/
def fillsPair : Machine := { shiftsAlike with pc := 0x202 }

theorem apart_after_fill_only :
    SameCourse (fun _ => 0) (fun _ => 0)
      (fun m k => k = m.withConfig { shift := .vy, block := .increment })
      shiftsAlike (shiftsAlike.withConfig { shift := .vy, block := .increment })
      [.step 0] [.step 0] ∧
    ∃ kept, (fillsPair.withBlock .keep).step (fun _ => 0) 0 = (.ok .advanced, kept) ∧
      (fillsPair.withBlock .increment).step (fun _ => 0) 0 =
        (.ok .advanced, { kept.withBlock .increment with index := kept.index + 1 + 1 }) := by
  obtain ⟨hcourse, htransfer⟩ := choices_act_through_their_instructions fun _ => 0
  have hmemory : ∃ fits, shiftsAlike.memory =
      Memory.initial.overlay 0x200 #[0x80, 0x16, 0xF1, 0x65] fits := ⟨by decide, rfl⟩
  have hshift : shiftsAlike.fetch = .ok (.alu .shiftRight 0 1) :=
    fetch_of_overlay (p := 0x200) hmemory rfl (by decide) rfl rfl ⟨rfl, rfl, rfl, rfl⟩
  have hfill : fillsPair.fetch = .ok (.fill 1) :=
    fetch_of_overlay (p := 0x202) hmemory rfl (by decide) rfl rfl ⟨rfl, rfl, rfl⟩
  have hexecuted : Moment.executed? (fun _ => 0) ⟨shiftsAlike, .step 0⟩ =
      some (.alu .shiftRight 0 1) := Moment.executed?_step_ok hshift (step_of_execute hshift rfl)
  obtain ⟨filled, hs⟩ := step_of_fill hfill (by decide) (fun _ => 0) 0
  refine ⟨hcourse ?_ ?_, htransfer (.inr hfill) hs⟩
  all_goals
    rintro - x hx
    obtain rfl : x = ⟨shiftsAlike, .step 0⟩ := List.mem_singleton.1 hx
    rw [hexecuted]
  · rintro a b (h | h) <;> cases h
    rfl
  · exact fun a => ⟨nofun, nofun⟩

end Machine

end ChipVm
