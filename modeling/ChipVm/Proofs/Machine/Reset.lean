/-
Reset. It brings every part of a machine back to power-on, with two exceptions: the bytes between
the glyphs and the program stay, and so does the count of random bytes taken. From there on the
machine goes on like a new one that holds the same bytes there.
-/
import ChipVm.Proofs.Config.Described
import ChipVm.Proofs.Machine.Writes
import ChipVm.Proofs.Snapshot.Future

namespace ChipVm

namespace Memory

variable {m : Memory}

theorem byte_initial_of_le {a : Nat} (h : glyphEnd ≤ a) : initial.byte a = 0 := by
  have hglyph : glyphTable[a]? = none := Vector.getElem?_eq_none h
  rw [byte_initial, hglyph, Option.getD_none]

theorem byte_clear_of_le {a : Nat} (h : programStart ≤ a) : m.clear.byte a = 0 := by
  rw [byte_clear, if_pos h]

theorem reserved_clear (m : Memory) : m.clear.reserved = m.reserved := by
  refine reserved_eq_iff.2 fun a hle hlt => ?_
  have hglyph : glyphTable[a]? = none := Vector.getElem?_eq_none hle
  rw [byte_clear, if_neg (Nat.not_le.2 hlt), hglyph, Option.getD_none]

/-- Memory that holds the glyphs and no program is what clearing leaves of memory that holds the
same bytes between them. -/
theorem eq_clear_of_reserved {k : Memory} (hm : m.HasGlyphs) (hreserved : m.reserved = k.reserved)
    (hprogram : ∀ a, programStart ≤ a → m.byte a = 0) : m = k.clear := by
  refine eq_of_reserved_of_programSpace hm (hasGlyphs_clear k) ?_ ?_
  · rw [reserved_clear, hreserved]
  · refine programSpace_eq_iff.2 fun a hle _ => ?_
    rw [hprogram a hle, byte_clear_of_le hle]

theorem clear_clear (m : Memory) : m.clear.clear = m.clear :=
  (eq_clear_of_reserved (hasGlyphs_clear m) rfl fun _ => byte_clear_of_le).symm

theorem length_reserved (m : Memory) : m.reserved.length = 432 := by
  rw [reserved, slice_eq_map m (by decide), List.length_map, List.length_range]
  rfl

theorem getElem?_reserved (m : Memory) {a : Nat} (hle : glyphEnd ≤ a) (hlt : a < programStart) :
    m.reserved[a - glyphEnd]? = some (m.byte a) := by
  rw [reserved, slice_eq_map m (by decide), List.getElem?_map, List.getElem?_range (by omega),
    Option.map_some, Nat.add_sub_cancel' hle]

/-- The bytes that clearing keeps, written to new memory, make what it leaves. -/
theorem writeBlock_reserved (m : Memory) : initial.writeBlock glyphEnd m.reserved = .ok m.clear := by
  have hlength := m.length_reserved
  cases hw : initial.writeBlock glyphEnd m.reserved with
  | error f =>
    have hcheck : checkWritable glyphEnd m.reserved.length = .ok () :=
      checkWritable_eq_ok_iff.2 (by unfold glyphEnd; omega)
    rw [writeBlock_eq_error_iff, hcheck] at hw
    cases hw
  | ok k =>
    have hreserved : k.reserved = m.reserved := by
      refine reserved_eq_iff.2 fun a hle hlt => ?_
      obtain ⟨start, fits, hstart, -, rfl⟩ := writeBlock_ok hw
      obtain rfl : glyphEnd = start := by omega
      rw [byte_overlay, if_pos hle, List.getElem?_toArray, getElem?_reserved m hle hlt,
        Option.getD_some]
    have hprogram : ∀ a, programStart ≤ a → k.byte a = 0 := by
      intro a hle
      unfold programStart at hle
      have hout : a ∉ List.range' glyphEnd 432 := by
        rw [List.mem_range'_1]
        unfold glyphEnd
        omega
      rw [byte_writeBlock hlength hw hout, byte_initial_of_le (by unfold glyphEnd; omega)]
    exact congrArg Except.ok
      (eq_clear_of_reserved (hasGlyphs_initial.writeBlock hw) hreserved hprogram)

end Memory

namespace Machine

variable {random random' : RandomBytes} {m : Machine}

/-! ## What a reset keeps -/

theorem memory_reset (m : Machine) : m.reset.memory = m.memory.clear := by rw [reset]

theorem drawn_reset (m : Machine) : m.reset.drawn = m.drawn := by rw [reset]

theorem reset_eq_new (m : Machine) :
    m.reset = { new m.config with memory := m.memory.clear, drawn := m.drawn } := by
  rw [reset, new]

theorem reset_reset (m : Machine) : m.reset.reset = m.reset := by
  rw [reset_eq_new m.reset, config_reset, memory_reset, drawn_reset, Memory.clear_clear,
    ← reset_eq_new]

/-! ## Power-on -/

/-- Every configuration that a host has come to is one with which it can begin. -/
theorem boot_config_of_reachable (h : Reachable random m) :
    ∃ choice, boot choice none = .ok (new m.config) := by
  induction h with
  | @boot choice program m h => exact ⟨choice, (boot_ok h).2⟩
  | @perform m _ c ih =>
    have hconfig : (m.perform random c).2.config = m.config := config_performAll random m [c]
    rwa [hconfig]

theorem rate_of_boot {choice : Option Config.Choice} {c : Config}
    (h : boot choice none = .ok (new c)) : c.rate.isNonpositive = false := by
  unfold boot at h
  cases hp : Config.picked choice with
  | error e =>
    rw [hp] at h
    cases h
  | ok picked =>
    rw [hp] at h
    have hconfig : picked.getD {} = c := congrArg config (Except.ok.inj h)
    rw [← hconfig]
    exact Config.rate_of_picked hp

/-- The configurations of the machines that a host can come to are exactly those whose rate is not
refused. -/
theorem exists_reachable_config_iff {c : Config} :
    (∃ m, Reachable random m ∧ m.config = c) ↔ c.rate.isNonpositive = false := by
  constructor
  · rintro ⟨m, hm, rfl⟩
    obtain ⟨choice, hboot⟩ := boot_config_of_reachable hm
    exact rate_of_boot hboot
  · intro hc
    obtain ⟨choice, hpick⟩ := Config.exists_pick_iff.2 hc
    have hboot : boot (some choice) none = .ok (new c) := by
      rw [boot, Config.picked, hpick]
      rfl
    exact ⟨new c, .boot hboot, rfl⟩

/-- Whether every part of a machine but its configuration is as at power-on. Of memory that goes for
the glyphs and the program space only, and random bytes may have been taken. -/
structure AtPowerOn (m : Machine) : Prop where
  registers : ∀ x, m.registers.get x = 0
  index : m.index = 0
  pc : m.pc = 0x200
  depth : m.stack.depth = 0
  slots : m.stack.slots.toList = List.replicate 16 0
  screen : ∀ c r, m.screen.get c r = false
  delay : m.timers.delay = 0
  sound : m.timers.sound = 0
  lastTick : m.timers.lastTick = none
  key : m.key = none
  completed : m.completed = 0
  glyphs : m.memory.HasGlyphs
  program : ∀ a, 0x200 ≤ a → m.memory.byte a = 0

theorem atPowerOn_reset (m : Machine) : m.reset.AtPowerOn where
  registers := Registers.get_zero
  index := rfl
  pc := rfl
  depth := rfl
  slots := Vector.toList_replicate
  screen := Screen.get_blank
  delay := rfl
  sound := rfl
  lastTick := rfl
  key := rfl
  completed := rfl
  glyphs := Memory.hasGlyphs_clear m.memory
  program a ha := by
    rw [memory_reset]
    exact Memory.byte_clear_of_le ha

/-! ## What is to come -/

/-- A machine that has been reset goes on like a new one with what it keeps of memory. -/
theorem alike_reset (hbytes : ∀ n, random (m.drawn + n) = random' n) :
    Alike random random' m.reset { new m.config with memory := m.memory.clear } := by
  rw [reset_eq_new]
  refine ⟨⟨m.config.rate, .empty, 0, rfl⟩, rfl, fun n => ?_⟩
  rw [hbytes]
  exact congrArg random' (Nat.zero_add n).symm

/-- Where nothing has been written between the glyphs and the program, a reset leaves memory as it
is at power-on. -/
theorem clear_of_unwritten {choice : Option Config.Choice} {program : Option ProgramSource}
    {start : Machine} {past : List Command} (h : boot choice program = .ok start)
    (hpast : ∀ x ∈ start.moments random past, ∀ a ∈ x.cells random, a < 0x50 ∨ 0x200 ≤ a) :
    (start.performAll random past).memory.clear = .initial := by
  have hreserved : Memory.initial.reserved = (start.performAll random past).memory.reserved := by
    refine Memory.reserved_eq_iff.2 fun a hle hlt => ?_
    have hkept : ∀ x ∈ start.moments random past, a ∉ x.cells random := by
      intro x hx ha
      rcases hpast x hx a ha with hbelow | habove
      · exact Nat.not_le.2 hbelow hle
      · exact Nat.not_le.2 hlt habove
    rw [byte_performAll past hkept, byte_boot h hlt]
  refine (Memory.eq_clear_of_reserved Memory.hasGlyphs_initial hreserved fun a hle => ?_).symm
  refine Memory.byte_initial_of_le ?_
  unfold Memory.programStart at hle
  unfold Memory.glyphEnd
  omega

/-- A reset brings a machine back to power-on, all but the bytes between the glyphs and the program
and the count of random bytes. A second one changes nothing. From there on the machine goes on like
a new one with the same configuration into which those bytes have been written, and if none of them
has ever been written, like a new one as it is; if a host has come to the machine, it can also begin
with such a new one. -/
theorem reset_is_power_on (random : RandomBytes) (m : Machine) :
    (Reachable random m → ∃ choice, boot choice none = .ok (new m.config)) ∧
    m.reset = { new m.config with memory := m.reset.memory, drawn := m.drawn } ∧
    m.reset.AtPowerOn ∧ m.reset.memory.reserved = m.memory.reserved ∧ m.reset.reset = m.reset ∧
    ∀ random' : RandomBytes, (∀ n, random (m.drawn + n) = random' n) →
      (∃ written, (new m.config).perform random'
          (.memory (.writeBlock 0x50 m.memory.reserved)) = (.ok .done, written) ∧
        GoOnAlike random random' m.reset written) ∧
      ∀ {choice : Option Config.Choice} {program : Option ProgramSource} {start : Machine}
        {past : List Command}, boot choice program = .ok start →
        start.performAll random past = m →
        (∀ x ∈ start.moments random past, ∀ a ∈ x.cells random, a < 0x50 ∨ 0x200 ≤ a) →
        GoOnAlike random random' m.reset (new m.config) := by
  refine ⟨boot_config_of_reachable, ?_, atPowerOn_reset m, ?_, reset_reset m,
    fun random' hbytes => ⟨⟨_, ?_, (alike_reset hbytes).goOnAlike⟩, ?_⟩⟩
  · rw [memory_reset, ← reset_eq_new]
  · rw [memory_reset, Memory.reserved_clear]
  · have hwrite : (new m.config).memory.edit (.writeBlock 0x50 m.memory.reserved) =
        .ok m.memory.clear := m.memory.writeBlock_reserved
    rw [perform, hwrite]
  · rintro choice program start past hboot rfl hpast
    have halike := alike_reset hbytes
    have hnew (config : Config) : { new config with memory := .initial } = new config := by
      rw [new]
    rw [clear_of_unwritten hboot hpast, hnew] at halike
    exact halike.goOnAlike

/-- A machine that has loaded a register. -/
def loadedRegister : Machine :=
  { new {} with
    memory := Memory.initial.overlay 0x200 #[0x60, 0x07] (by decide)
    timers := ⟨0, 0, some 0⟩
    registers := Registers.zero.set 0 7
    pc := 0x202
    completed := 1 }

theorem reset_after_load :
    loadedRegister ≠ loadedRegister.reset ∧
    (∃ choice, boot choice none = .ok (new loadedRegister.config)) ∧
    loadedRegister.reset.AtPowerOn ∧
    (∃ written, (new {}).perform (fun _ => 0)
        (.memory (.writeBlock 0x50 loadedRegister.memory.reserved)) = (.ok .done, written) ∧
      GoOnAlike (fun _ => 0) (fun _ => 0) loadedRegister.reset written) ∧
    GoOnAlike (fun _ => 0) (fun _ => 0) loadedRegister.reset (new {}) := by
  have hboot : boot none (some (.image [0x60, 0x07])) =
      .ok { new {} with memory := loadedRegister.memory } := rfl
  have hm : ∃ fits, loadedRegister.memory =
      Memory.initial.overlay 0x200 #[0x60, 0x07] fits := ⟨by decide, rfl⟩
  have hf : fetch { new {} with memory := loadedRegister.memory } = .ok (.loadByte 0 7) :=
    fetch_of_overlay (p := 0x200) hm rfl (by decide) rfl rfl ⟨rfl, rfl, rfl⟩
  have hs : Machine.step (fun _ => 0) 0 { new {} with memory := loadedRegister.memory } =
      (.ok .advanced, loadedRegister) := step_of_execute hf rfl
  have hpast : performAll (fun _ => 0) { new {} with memory := loadedRegister.memory } [.step 0] =
      loadedRegister := by
    rw [performAll, performAll, perform_step_snd, hs]
  have hreachable : Reachable (fun _ => 0) loadedRegister :=
    hpast ▸ (Reachable.boot hboot).performAll [.step 0]
  -- The instruction writes nowhere in memory.
  have hcells : ∀ x ∈ moments (fun _ => 0) { new {} with memory := loadedRegister.memory } [.step 0],
      ∀ a ∈ x.cells fun _ => 0, a < 0x50 ∨ 0x200 ≤ a := by
    simp only [moments, momentsOf, List.append_nil, List.mem_singleton]
    rintro x rfl a ha
    simp only [Moment.cells, Command.memoryEdit?, Moment.executed?_step_ok hf hs] at ha
    cases ha
  obtain ⟨hbegin, -, hpower, -, -, hfuture⟩ := reset_is_power_on (fun _ => 0) loadedRegister
  obtain ⟨hwritten, hplain⟩ := hfuture (fun _ => 0) fun _ => rfl
  refine ⟨fun h => ?_, hbegin hreachable, hpower, hwritten, hplain hboot hpast hcells⟩
  have hcompleted : loadedRegister.completed = 0 := by rw [h]; exact hpower.completed
  cases hcompleted

end Machine

end ChipVm
