/-
Reachable machines: whatever a host does to a new machine, and whether or not it is refused, the
glyphs stay in place and the index, the program counter and the return addresses stay in bounds.

The bounds need each other. A return address lies behind a word that could be fetched, so that a
return leads back into memory or just behind it; and no other instruction leads further than an
address and a byte.
-/
import ChipVm.Proofs.Machine.Fault

namespace ChipVm

/-! ## Glyphs -/

namespace Memory

/-- Whether the glyphs stand at the bottom of memory. -/
def HasGlyphs (m : Memory) : Prop := ∀ a (h : a < 80), m.byte a = glyphTable[a]

theorem HasGlyphs.take_bytes {m : Memory} (hm : m.HasGlyphs) :
    m.bytes.toList.take 80 = glyphTable.toList := by
  refine List.ext_getElem (by simp) fun a ha _ => ?_
  have h80 : a < 80 := by simpa using ha
  have := hm a h80
  simpa [byte, show a < 4096 by omega] using this

theorem hasGlyphs_initial : initial.HasGlyphs := by
  intro a h
  rw [byte_initial, Vector.getElem?_eq_getElem h]
  rfl

theorem HasGlyphs.overlay {m : Memory} (hm : m.HasGlyphs) {start : Nat} {data : Array UInt8}
    (fits : start + data.size ≤ 4096) (hs : data.size ≠ 0 → 80 ≤ start) :
    (m.overlay start data fits).HasGlyphs := by
  intro a h
  rw [byte_overlay, ← hm a h]
  split
  · have hd : data[a - start]? = none := by
      rw [Array.getElem?_eq_none_iff]
      omega
    rw [hd]
    rfl
  · rfl

theorem HasGlyphs.writeBlock {m k : Memory} (hm : m.HasGlyphs) {a : Int} {data : List UInt8}
    (h : m.writeBlock a data = .ok k) : k.HasGlyphs := by
  obtain ⟨start, fits, -, hs, rfl⟩ := writeBlock_ok h
  exact hm.overlay fits hs

theorem HasGlyphs.load {m k : Memory} (hm : m.HasGlyphs) {image : List UInt8}
    (h : m.load image = .ok k) : k.HasGlyphs := by
  unfold Memory.load at h
  split at h
  · cases h
  · obtain rfl := Except.ok.inj h
    exact hm.overlay _ fun _ => Nat.le_of_ble_eq_true rfl

theorem hasGlyphs_clear (m : Memory) : m.clear.HasGlyphs := by
  intro a h
  rw [byte_clear, if_neg (by unfold programStart; omega), Vector.getElem?_eq_getElem h]
  rfl

theorem HasGlyphs.edit {m k : Memory} (hm : m.HasGlyphs) {e : Edit} (h : m.edit e = .ok k) :
    k.HasGlyphs := by
  cases e with
  | write a v => exact hm.writeBlock ((write_eq_writeBlock m a v).symm.trans h)
  | writeBlock a data => exact hm.writeBlock h
  | load image => exact hm.load h
  | clear =>
    obtain rfl := Except.ok.inj h
    exact hasGlyphs_clear m

end Memory

namespace Machine

variable {random : RandomBytes} {m after : Machine} {flow : Flow}

/-! ## Bounds -/

/-- What instructions and hosts keep. -/
structure Bounded (m : Machine) : Prop where
  glyphs : m.memory.HasGlyphs
  index : m.index ≤ 0xFFFF
  live : ∀ a ∈ m.stack.live, 2 ≤ a ∧ a ≤ 4096
  pc : m.pc ≤ 0x10FE

theorem bounded_new (config : Config) : (new config).Bounded where
  glyphs := Memory.hasGlyphs_initial
  index := Nat.zero_le _
  live a ha := by simp [new] at ha
  pc := by simp [new, Memory.programStart]

theorem indexAfterBlock_le (hm : m.index ≤ 0xFFFF) (x : Fin 16) :
    m.indexAfterBlock x ≤ 0xFFFF := by
  unfold indexAfterBlock
  split <;> omega

/-- An instruction that goes through keeps the bounds and leaves the program counter alone. -/
theorem Bounded.execute (hm : m.Bounded) (hp : m.pc ≤ 4094) {i : Instruction} {w : Word}
    (hi : i.HasWord w) (h : m.execute random i = (.ok flow, after)) :
    after.Bounded ∧ after.pc = m.pc := by
  cases i with
  -- What a call pushes lies behind a word that was fetched; this is where `hp` is needed.
  | ret =>
    obtain ⟨address, stack, hpop, -, rfl⟩ := ret_ok h
    refine ⟨{ hm with live := fun a ha => hm.live a ?_ }, rfl⟩
    rw [Stack.live_pop? hpop]
    exact List.mem_append_left _ ha
  | call target =>
    obtain ⟨stack, hpush, -, rfl⟩ := call_ok h
    refine ⟨{ hm with live := fun a ha => ?_ }, rfl⟩
    rw [Stack.live_push? hpush, List.mem_append, List.mem_singleton] at ha
    rcases ha with ha | rfl
    · exact hm.live a ha
    · omega
  | setIndex address =>
    cases h
    obtain ⟨-, rfl⟩ := hi
    exact ⟨{ hm with index := by simp only [Word.address]; omega }, rfl⟩
  | addIndex x =>
    cases h
    exact ⟨{ hm with index := by simp only; omega }, rfl⟩
  | glyph x =>
    cases h
    have hx := (m.registers.get x).toNat_lt
    exact ⟨{ hm with index := by simp only [Memory.glyphSize]; omega }, rfl⟩
  | draw x y rows =>
    obtain ⟨sprite, hit, screen, -, -, -, rfl⟩ := drawSprite_ok h
    exact ⟨{ hm with }, rfl⟩
  | fill x =>
    obtain ⟨values, -, -, rfl⟩ := fillRegisters_ok h
    exact ⟨{ hm with index := indexAfterBlock_le hm.index x }, rfl⟩
  | decimal x =>
    obtain ⟨memory, hw, -, rfl⟩ := storeDecimal_ok h
    exact ⟨{ hm with glyphs := hm.glyphs.writeBlock hw }, rfl⟩
  | store x =>
    obtain ⟨memory, hw, -, rfl⟩ := storeRegisters_ok h
    exact ⟨{ hm with
      glyphs := hm.glyphs.writeBlock hw, index := indexAfterBlock_le hm.index x }, rfl⟩
  | awaitKey x =>
    obtain ⟨-, -, rfl⟩ | ⟨key, -, -, rfl⟩ := awaitKey_ok h
    · exact ⟨hm, rfl⟩
    · exact ⟨{ hm with }, rfl⟩
  | _ => cases h; exact ⟨{ hm with }, rfl⟩

theorem target?_skipIf {condition : Bool} {pc next : Nat}
    (h : (Flow.skipIf condition).target? pc = some next) : next ≤ pc + 4 := by
  cases condition <;> cases h <;> omega

/-- An instruction leads at most as far as an address and a byte. -/
theorem Bounded.target (hm : m.Bounded) (hp : m.pc ≤ 4094) {i : Instruction} {w : Word}
    (hi : i.HasWord w) (h : m.execute random i = (.ok flow, after)) {next : Nat}
    (ht : flow.target? m.pc = some next) : next ≤ 0x10FE := by
  -- All but the returns and the jumps go on at most four bytes further.
  have haddress : w.address < 4096 := Nat.mod_lt _ (by omega)
  cases i with
  | ret =>
    obtain ⟨address, stack, hpop, rfl, -⟩ := ret_ok h
    cases ht
    have := hm.live next (by rw [Stack.live_pop? hpop]; simp)
    omega
  | call target =>
    obtain ⟨stack, -, rfl, -⟩ := call_ok h
    cases ht
    obtain ⟨-, rfl⟩ := hi
    omega
  | jump target =>
    cases h
    cases ht
    obtain ⟨-, rfl⟩ := hi
    omega
  | jumpOffset address =>
    cases h
    cases ht
    obtain ⟨-, rfl⟩ := hi
    have h0 := (m.registers.get 0).toNat_lt
    omega
  | draw x y rows =>
    obtain ⟨sprite, hit, screen, -, -, rfl, -⟩ := drawSprite_ok h
    cases ht
    omega
  | fill x =>
    obtain ⟨values, -, rfl, -⟩ := fillRegisters_ok h
    cases ht
    omega
  | decimal x =>
    obtain ⟨memory, -, rfl, -⟩ := storeDecimal_ok h
    cases ht
    omega
  | store x =>
    obtain ⟨memory, -, rfl, -⟩ := storeRegisters_ok h
    cases ht
    omega
  | awaitKey x =>
    obtain ⟨-, rfl, -⟩ | ⟨key, -, rfl, -⟩ := awaitKey_ok h
    · cases ht
    · cases ht; omega
  | skipIfByte _ _ | skipUnlessByte _ _ | skipIfSame _ _ | skipUnlessSame _ _ | skipIfKey _
  | skipUnlessKey _ =>
    cases h
    have := target?_skipIf ht
    omega
  | _ => cases h; cases ht; omega

/-! ## Steps and runs -/

theorem Bounded.commit (hm : m.Bounded)
    (ht : ∀ next, flow.target? m.pc = some next → next ≤ 0x10FE) : (m.commit flow).2.Bounded := by
  unfold Machine.commit
  cases hf : flow.target? m.pc with
  | none => exact hm
  | some next => exact { hm with pc := ht next hf }

theorem Bounded.cycle (hm : m.Bounded) : (m.cycle random).2.Bounded := by
  unfold Machine.cycle
  cases hf : m.fetch with
  | error f => exact hm
  | ok i =>
    obtain ⟨hp, hi⟩ := fetch_eq_ok_iff.1 hf
    -- An instruction that is refused has changed nothing.
    rcases hx : m.execute random i with ⟨_ | flow, after⟩
    · obtain ⟨f, -, -, rfl⟩ := fault_of_execute_error hx
      simp only [hx]
      exact hm
    · obtain ⟨ha, hpc⟩ := hm.execute hp hi hx
      simp only [hx]
      exact ha.commit fun next ht => hm.target hp hi hx (hpc ▸ ht)

theorem Bounded.step (hm : m.Bounded) (random : RandomBytes) (now : Int) :
    (m.step random now).2.Bounded :=
  Bounded.cycle (m := m.tick now) { hm with }

theorem Bounded.runFrom (hm : m.Bounded) (random : RandomBytes) (clock : Nat → Int)
    (made cycles : Nat) : (m.runFrom random clock made cycles).2.Bounded := by
  induction cycles generalizing m made with
  | zero => exact hm
  | succ cycles ih =>
    have hs := hm.step random (clock made)
    unfold Machine.runFrom
    split
    all_goals rename_i hr; rw [hr] at hs
    · exact hs
    · exact hs
    · exact ih hs (made + 1)

/-! ## Hosts -/

theorem Bounded.reset (m : Machine) : m.reset.Bounded :=
  { bounded_new m.config with glyphs := Memory.hasGlyphs_clear m.memory }

theorem Bounded.load (hm : m.Bounded) {image : List UInt8} (h : m.load image = .ok after) :
    after.Bounded := by
  unfold Machine.load at h
  cases hl : m.memory.load image with
  | error f => rw [hl] at h; cases h
  | ok memory =>
    rw [hl] at h
    cases h
    exact { hm with glyphs := hm.glyphs.load hl }

theorem perform_step_snd (random : RandomBytes) (m : Machine) (now : Int) :
    (m.perform random (.step now)).2 = (m.step random now).2 := by
  rw [perform]
  cases m.step random now with
  | mk result after => cases result <;> rfl

theorem perform_run_snd (random : RandomBytes) (m : Machine) (clock : Nat → Int) (cycles : Int) :
    (m.perform random (.run clock cycles)).2 = (m.run random clock cycles).2 := by
  rw [perform]
  cases m.run random clock cycles with
  | mk result after => cases result <;> rfl

theorem perform_step_fst (random : RandomBytes) (m : Machine) (now : Int) :
    (m.perform random (.step now)).1 = (m.step random now).1.map .status := by
  rw [perform]
  cases m.step random now with
  | mk result after => cases result <;> rfl

theorem perform_run_fst (random : RandomBytes) (m : Machine) (clock : Nat → Int) (cycles : Int) :
    (m.perform random (.run clock cycles)).1 = (m.run random clock cycles).1.map .count := by
  rw [perform]
  cases m.run random clock cycles with
  | mk result after => cases result <;> rfl

/-- Whatever a host does keeps the bounds, refused or not. -/
theorem Bounded.perform (hm : m.Bounded) (c : Command) : (m.perform random c).2.Bounded := by
  cases c with
  | step now =>
    rw [perform_step_snd]
    exact hm.step random now
  | run clock cycles =>
    rw [perform_run_snd]
    exact hm.runFrom random clock 0 cycles.toNat
  | setKey value =>
    rw [Machine.perform]
    split
    · exact { hm with }
    · exact hm
  | reset => exact Bounded.reset m
  | load source =>
    rw [Machine.perform]
    split
    · exact hm
    · split
      · rename_i hl
        exact hm.load hl
      · exact hm
  | read query =>
    rw [Machine.perform]
    split <;> exact hm
  | memory edit =>
    rw [Machine.perform]
    split
    · rename_i he
      exact { hm with glyphs := hm.glyphs.edit he }
    · exact hm
  | registers edit =>
    rw [Machine.perform]
    split <;> exact { hm with }
  | timers edit => exact { hm with }
  | screen edit =>
    rw [Machine.perform]
    split <;> exact { hm with }

theorem bounded_of_boot {choice : Option Config.Choice} {program : Option ProgramSource}
    (h : boot choice program = .ok m) : m.Bounded := by
  unfold boot at h
  split at h
  · cases h
  · simp only at h
    split at h
    · cases h
      exact bounded_new _
    · cases h
    · split at h
      · rename_i hl
        cases h
        exact (bounded_new _).load hl
      · cases h

/-- The machines that a host can come to from power-on, with whatever random bytes the machine
takes. -/
inductive Reachable (random : RandomBytes) : Machine → Prop where
  | boot {choice : Option Config.Choice} {program : Option ProgramSource} {m : Machine}
    (h : boot choice program = .ok m) : Reachable random m
  | perform {m : Machine} (h : Reachable random m) (c : Command) :
    Reachable random (m.perform random c).2

theorem Reachable.step (h : Reachable random m) {now : Int} {result : Except Refusal Status}
    (hs : m.step random now = (result, after)) : Reachable random after := by
  have hstep := h.perform (.step now)
  rwa [perform_step_snd, hs] at hstep

theorem Reachable.performAll (h : Reachable random m) (cs : List Command) :
    Reachable random (m.performAll random cs) := by
  induction cs generalizing m with
  | nil => exact h
  | cons c cs ih => exact ih (h.perform c)

theorem Reachable.bounded (h : Reachable random m) : m.Bounded := by
  induction h with
  | boot h => exact bounded_of_boot h
  | perform _ c ih => exact ih.perform c

/-! ## The bounds of every part -/

/-- The bounds of every part of a machine. -/
structure InBounds (m : Machine) : Prop where
  memory_size : m.memory.bytes.toList.length = 4096
  glyphs : m.memory.bytes.toList.take 0x50 = Memory.glyphTable.toList
  register_count : m.registers.cells.toList.length = 16
  registers : ∀ v ∈ m.registers.cells.toList, v.toNat ≤ 255
  delay : m.timers.delay.toNat ≤ 255
  sound : m.timers.sound.toNat ≤ 255
  index : m.index ≤ 0xFFFF
  depth : m.stack.depth ≤ 16
  slot_count : m.stack.slots.toList.length = 16
  live : ∀ a ∈ m.stack.live, 2 ≤ a ∧ a ≤ 4096
  pc : m.pc ≤ 0x10FE
  key : m.key = none ∨ ∃ k, m.key = some k ∧ k.digit.val ≤ 15
  completed : 0 ≤ m.completed

/-- A machine is in its bounds whatever a host has done to it. -/
theorem reachable_inBounds (h : Reachable random m) : m.InBounds where
  memory_size := Vector.length_toList
  glyphs := h.bounded.glyphs.take_bytes
  register_count := Vector.length_toList
  registers v _ := Nat.le_of_lt_succ v.toNat_lt
  delay := Nat.le_of_lt_succ m.timers.delay.toNat_lt
  sound := Nat.le_of_lt_succ m.timers.sound.toNat_lt
  index := h.bounded.index
  depth := m.stack.depth_le
  slot_count := Vector.length_toList
  live := h.bounded.live
  pc := h.bounded.pc
  key := by
    cases m.key with
    | none => exact .inl rfl
    | some k => exact .inr ⟨k, rfl, Nat.le_of_lt_succ k.digit.isLt⟩
  completed := Nat.zero_le _

/-- A machine about to jump as far as a jump can lead, by the largest byte from the last address. -/
def jumpingFarthest : Machine :=
  { new {} with
    memory := Memory.initial.overlay 0x200 #[0xBF, 0xFF] (by decide)
    registers := Registers.zero.set 0 0xFF }

theorem reachable_jumpingFarthest : Reachable random jumpingFarthest := by
  have hb : boot none (some (.image [0xBF, 0xFF])) = .ok
      { new {} with memory := Memory.initial.overlay 0x200 #[0xBF, 0xFF] (by decide) } := rfl
  have hr : Registers.zero.write 0 0xFF = .ok (Registers.zero.set 0 0xFF) :=
    Registers.write_of_lt _ (by decide) 0xFF
  have h : Reachable random _ := (Reachable.boot hb).perform (.registers (.set 0 0xFF))
  simp only [perform, Registers.edit, new, hr] at h
  exact h

theorem pc_step_jumpingFarthest : (jumpingFarthest.step random 0).2.pc = 0x10FE := by
  have hw : (jumpingFarthest.tick 0).word = .ofBytes 0xBF 0xFF := by
    simp only [word, tick, jumpingFarthest, new, Memory.programStart, Memory.byte_overlay]
    rfl
  have hf : (jumpingFarthest.tick 0).fetch = .ok (.jumpOffset 0xFFF) := by
    refine fetch_eq_ok_iff.2 ⟨by decide, ?_⟩
    rw [hw]
    exact ⟨by decide, by decide⟩
  rw [step, cycle, hf]
  rfl

theorem farthest_jump_inBounds :
    Reachable (fun _ => 0) (jumpingFarthest.perform (fun _ => 0) (.step 0)).2 ∧
    (jumpingFarthest.perform (fun _ => 0) (.step 0)).2.pc = 0x10FE ∧
    (jumpingFarthest.perform (fun _ => 0) (.step 0)).2.InBounds := by
  have h : Reachable (fun _ => 0) (jumpingFarthest.perform (fun _ => 0) (.step 0)).2 :=
    reachable_jumpingFarthest.perform _
  refine ⟨h, ?_, reachable_inBounds h⟩
  rw [perform_step_snd]
  exact pc_step_jumpingFarthest

end Machine

end ChipVm
