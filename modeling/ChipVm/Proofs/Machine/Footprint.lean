/-
The footprint of a step: for each part of a machine the instruction words that may change it, and
how far. Memory in particular changes at the index only, under two words, so that in a history in
which the host does not write either, all bytes outside the ranges of these two stay.
-/
import ChipVm.Proofs.Machine.Writes

namespace ChipVm

namespace Stack

variable {s t : Stack} {address : Nat}

theorem slots_push? (h : s.push? address = some t) (j : Fin 16) (hj : j.val ≠ s.depth) :
    t.slots.get j = s.slots.get j := by
  unfold push? at h
  split at h
  · rename_i hdepth
    cases h
    exact Vector.getElem_set_ne hdepth j.isLt hj.symm
  · cases h

theorem slots_pop? (h : s.pop? = some (address, t)) : t.slots = s.slots := by
  unfold pop? at h
  split at h
  · cases h
    rfl
  · cases h

end Stack

namespace Instruction

/-! ## What instructions change -/

/-- Whether an instruction changes pixels. -/
def ChangesScreen : Instruction → Prop
  | .clearScreen | .draw _ _ _ => True
  | _ => False

/-- The registers that an instruction writes. -/
def registers : Instruction → List (Fin 16)
  | .loadByte x _ | .addByte x _ | .random x _ | .readDelay x | .awaitKey x => [x]
  | .alu .move x _ | .alu .or x _ | .alu .and x _ | .alu .xor x _ => [x]
  | .alu _ x _ => [x, Registers.flagIndex]
  | .draw _ _ _ => [Registers.flagIndex]
  | .fill x => (List.finRange 16).filter (· ≤ x)
  | _ => []

/-- Whether an instruction moves the index; block transfers do so under one of the two rules. -/
def MovesIndex (rule : BlockIndex) : Instruction → Prop
  | .setIndex _ | .addIndex _ | .glyph _ => True
  | .store _ | .fill _ => rule = .increment
  | _ => False

/-- Whether an instruction takes the pending key. -/
def TakesKey : Instruction → Prop
  | .skipIfKey _ | .skipUnlessKey _ | .awaitKey _ => True
  | _ => False

/-- Whether an instruction assigns one of the timers. -/
def SetsTimer : Instruction → Prop
  | .setDelay _ | .setSound _ => True
  | _ => False

end Instruction

/-- Whether a word may write a register. -/
def Word.WritesRegister (w : Word) (z : Fin 16) : Prop :=
  w.family ∈ ([0x6, 0x7, 0xC] : List (Fin 16)) ∧ z = w.x ∨
  w.family = 0x8 ∧ w.n ∈ ([0x0, 0x1, 0x2, 0x3] : List (Fin 16)) ∧ z = w.x ∨
  w.family = 0x8 ∧ w.n ∈ ([0x4, 0x5, 0x6, 0x7, 0xE] : List (Fin 16)) ∧ (z = w.x ∨ z = 0xF) ∨
  w.family = 0xD ∧ z = 0xF ∨
  w.family = 0xF ∧ w.low ∈ ([0x07, 0x0A] : List UInt8) ∧ z = w.x ∨
  w.family = 0xF ∧ w.low = 0x65 ∧ z ≤ w.x

namespace Instruction

variable {i : Instruction} {w : Word}

theorem ChangesScreen.word (h : i.ChangesScreen) (hi : i.HasWord w) :
    w.family = 0x0 ∧ w.low = 0xE0 ∨ w.family = 0xD := by
  cases i with
  | clearScreen => exact .inl hi
  | draw x y rows => exact .inr hi.1
  | _ => cases h

theorem MovesIndex.word {rule : BlockIndex} (h : i.MovesIndex rule) (hi : i.HasWord w) :
    w.family = 0xA ∨
    w.family = 0xF ∧ w.low ∈ ([0x1E, 0x29] : List UInt8) ∨
    w.family = 0xF ∧ w.low ∈ ([0x55, 0x65] : List UInt8) ∧ rule = .increment := by
  cases i with
  | setIndex address => exact .inl hi.1
  | addIndex x | glyph x => exact .inr (.inl ⟨hi.1, by simp [hi.2.1]⟩)
  | store x | fill x => exact .inr (.inr ⟨hi.1, by simp [hi.2.1], h⟩)
  | _ => cases h

theorem TakesKey.word (h : i.TakesKey) (hi : i.HasWord w) :
    w.family = 0xE ∧ w.low ∈ ([0x9E, 0xA1] : List UInt8) ∨ w.family = 0xF ∧ w.low = 0x0A := by
  cases i with
  | skipIfKey x | skipUnlessKey x => exact .inl ⟨hi.1, by simp [hi.2.1]⟩
  | awaitKey x => exact .inr ⟨hi.1, hi.2.1⟩
  | _ => cases h

theorem writesRegister_of_mem {z : Fin 16} (hz : z ∈ i.registers) (hi : i.HasWord w) :
    w.WritesRegister z := by
  unfold Word.WritesRegister
  cases i with
  | loadByte x byte | addByte x byte | random x byte =>
    obtain ⟨hfamily, rfl, -⟩ := hi
    exact .inl ⟨by simp [hfamily], List.mem_singleton.1 hz⟩
  | alu op x y =>
    obtain ⟨hfamily, hn, rfl, -⟩ := hi
    cases op <;> simp [registers, AluOp.digit] at hz hn <;> simp [hfamily, hn, hz] <;> exact hz
  | draw x y rows => exact .inr (.inr (.inr (.inl ⟨hi.1, List.mem_singleton.1 hz⟩)))
  | readDelay x | awaitKey x =>
    obtain ⟨hfamily, hlow, rfl⟩ := hi
    exact .inr (.inr (.inr (.inr (.inl ⟨hfamily, by simp [hlow], List.mem_singleton.1 hz⟩))))
  | fill x =>
    obtain ⟨hfamily, hlow, rfl⟩ := hi
    exact .inr (.inr (.inr (.inr (.inr ⟨hfamily, hlow, by simpa [registers] using hz⟩))))
  | _ => cases hz

end Instruction

theorem Registers.get_alu {r : Registers} {shift : ShiftOperand} {op : AluOp} {x y z : Fin 16}
    (hz : z ∉ (Instruction.alu op x y).registers) : (r.alu shift op x y).get z = r.get z := by
  have hresult (v : UInt8) : (r.set x v).get z = r.get z := by
    rw [get_set, if_neg]
    rintro rfl
    exact hz (by cases op <;> exact List.mem_cons_self)
  unfold alu
  simp only
  split
  · rename_i flag hflag
    rw [get_setFlag, if_neg, hresult]
    rintro rfl
    refine hz ?_
    cases op <;> simp [AluOp.flag?, Instruction.registers] at hflag ⊢
  · exact hresult _

namespace Machine

variable {random : RandomBytes} {m after : Machine} {i : Instruction} {flow : Flow}

/-! ## One instruction -/

theorem indexAfterBlock_of_keep (x : Fin 16) (h : m.config.block ≠ .increment) :
    m.indexAfterBlock x = m.index := by
  unfold indexAfterBlock
  split
  · rfl
  · rename_i hb
    exact absurd hb h

/-- What an instruction leaves alone besides its frame. -/
structure Footprint (i : Instruction) (m after : Machine) : Prop extends Frame i m after where
  screen : ¬i.ChangesScreen → after.screen = m.screen := by exact fun _ => rfl
  registers : ∀ z ∉ i.registers, after.registers.get z = m.registers.get z := by
    exact fun _ _ => rfl
  index : ¬i.MovesIndex m.config.block → after.index = m.index := by exact fun _ => rfl
  slots : ∀ j : Fin 16, (∀ target, i = .call target → j.val ≠ m.stack.depth) →
    after.stack.slots.get j = m.stack.slots.get j := by exact fun _ _ => rfl
  key : ¬i.TakesKey → after.key = m.key := by exact fun _ => rfl
  timers : ¬i.SetsTimer → after.timers = m.timers := by exact fun _ => rfl
  drawn : (∀ x mask, i ≠ .random x mask) → after.drawn = m.drawn := by exact fun _ => rfl
  completed : after.completed = m.completed := by rfl
  pc : after.pc = m.pc := by rfl

theorem footprint_of_execute (h : m.execute random i = (.ok flow, after)) :
    Footprint i m after := by
  have hframe := frame_of_execute h
  cases i with
  | ret =>
    obtain ⟨address, stack, hpop, -, rfl⟩ := ret_ok h
    refine { hframe with slots := ?_ }
    intro j _
    simp only [Stack.slots_pop? hpop]
  | call target =>
    obtain ⟨stack, hpush, -, rfl⟩ := call_ok h
    refine { hframe with slots := ?_ }
    intro j hj
    exact Stack.slots_push? hpush j (hj target rfl)
  | decimal x =>
    obtain ⟨memory, -, -, rfl⟩ := storeDecimal_ok h
    exact { hframe with }
  | store x =>
    obtain ⟨memory, -, -, rfl⟩ := storeRegisters_ok h
    exact { hframe with index := indexAfterBlock_of_keep x }
  | fill x =>
    obtain ⟨values, hread, -, rfl⟩ := fillRegisters_ok h
    refine { hframe with index := indexAfterBlock_of_keep x, registers := ?_ }
    intro z hz
    have hlength := (Memory.readBlock_natCast hread).2
    have hlt : x < z := by simpa [Instruction.registers] using hz
    have hnone : values[z.val]? = none := by
      rw [List.getElem?_eq_none_iff, hlength]
      exact hlt
    simp only [Registers.load, Registers.get_loadFrom, Nat.zero_le, if_true, Nat.sub_zero,
      List.getElem?_map, hnone, Option.map_none, Option.getD_none]
  | draw x y rows =>
    obtain ⟨sprite, hit, screen, -, -, -, rfl⟩ := drawSprite_ok h
    refine { hframe with screen := fun hn => absurd trivial hn, registers := ?_ }
    intro z hz
    rw [Registers.get_setFlag, if_neg (by simpa [Instruction.registers] using hz)]
  | awaitKey x =>
    obtain ⟨-, -, rfl⟩ | ⟨key, -, -, rfl⟩ := awaitKey_ok h
    · exact { hframe with }
    · refine { hframe with key := fun hn => absurd trivial hn, registers := ?_ }
      intro z hz
      rw [Registers.get_set, if_neg fun e => hz (by simp [Instruction.registers, e])]
  | loadByte x _ | addByte x _ | readDelay x =>
    cases h
    refine { hframe with registers := ?_ }
    intro z hz
    rw [Registers.get_set, if_neg fun e => hz (by simp [Instruction.registers, e])]
  | random x mask =>
    cases h
    refine { hframe with drawn := fun hn => absurd rfl (hn x mask), registers := ?_ }
    intro z hz
    rw [Registers.get_set, if_neg fun e => hz (by simp [Instruction.registers, e])]
  | alu op x y =>
    cases h
    exact { hframe with registers := fun z hz => Registers.get_alu hz }
  | clearScreen =>
    cases h
    exact { hframe with screen := fun hn => absurd trivial hn }
  | setIndex _ | addIndex _ | glyph _ =>
    cases h
    exact { hframe with index := fun hn => absurd trivial hn }
  | skipIfKey _ | skipUnlessKey _ =>
    cases h
    exact { hframe with key := fun hn => absurd trivial hn }
  | setDelay _ | setSound _ =>
    cases h
    exact { hframe with timers := fun hn => absurd trivial hn }
  | _ =>
    cases h
    exact { hframe with }

/-- An instruction that is refused leaves all of it alone. -/
theorem footprint_execute (random : RandomBytes) (m : Machine) (i : Instruction) :
    Footprint i m (m.execute random i).2 := by
  rcases hx : m.execute random i with ⟨e | flow, after⟩
  · obtain ⟨f, -, -, rfl⟩ := fault_of_execute_error hx
    exact { config := rfl, memory := fun _ _ => rfl, stack := fun _ _ => rfl }
  · exact footprint_of_execute hx

/-- What is written lies behind the glyphs and inside memory. -/
theorem cells_of_execute (h : m.execute random i = (.ok flow, after)) {a : Nat}
    (ha : a ∈ i.cells m.index) : 0x50 ≤ a ∧ a ≤ 0xFFF := by
  cases i with
  | decimal x =>
    obtain ⟨memory, hw, -, -⟩ := storeDecimal_ok h
    have hbounds := writeBlock_index_ok (length_decimalDigits _) hw
    rw [Instruction.cells, List.mem_range'_1] at ha
    omega
  | store x =>
    obtain ⟨memory, hw, -, -⟩ := storeRegisters_ok h
    have hbounds := writeBlock_index_ok (m.registers.length_upTo x) hw
    rw [Instruction.cells, List.mem_range'_1] at ha
    omega
  | _ => cases ha

/-! ## Words -/

/-- Whether the word at the program counter stores to an address. -/
def Stores (m : Machine) (a : Nat) : Prop :=
  m.word.family = 0xF ∧
    (m.word.low = 0x33 ∧ m.index ≤ a ∧ a ≤ m.index + 2 ∨
      m.word.low = 0x55 ∧ m.index ≤ a ∧ a ≤ m.index + m.word.x)

theorem stores_of_mem_cells (hi : i.HasWord m.word) {a : Nat} (ha : a ∈ i.cells m.index) :
    m.Stores a := by
  cases i with
  | decimal x =>
    obtain ⟨hfamily, hlow, -⟩ := hi
    rw [Instruction.cells, List.mem_range'_1] at ha
    exact ⟨hfamily, .inl ⟨hlow, by omega, by omega⟩⟩
  | store x =>
    obtain ⟨hfamily, hlow, rfl⟩ := hi
    rw [Instruction.cells, List.mem_range'_1] at ha
    exact ⟨hfamily, .inr ⟨hlow, by omega, by omega⟩⟩
  | _ => cases ha

/-- What a step that goes on may have changed, by the word at the program counter before it. -/
structure ChangesOnly (m after : Machine) : Prop where
  screen : after.screen ≠ m.screen →
    m.word.family = 0x0 ∧ m.word.low = 0xE0 ∨ m.word.family = 0xD
  memory : ∀ a, after.memory.byte a ≠ m.memory.byte a → m.Stores a ∧ 0x50 ≤ a ∧ a ≤ 0xFFF
  registers : ∀ z, after.registers.get z ≠ m.registers.get z → m.word.WritesRegister z
  index : after.index ≠ m.index →
    m.word.family = 0xA ∨
    m.word.family = 0xF ∧ m.word.low ∈ ([0x1E, 0x29] : List UInt8) ∨
    m.word.family = 0xF ∧ m.word.low ∈ ([0x55, 0x65] : List UInt8) ∧ m.config.block = .increment
  stack : after.stack ≠ m.stack →
    m.word.family = 0x0 ∧ m.word.low = 0xEE ∨ m.word.family = 0x2
  slots : ∀ j : Fin 16, after.stack.slots.get j ≠ m.stack.slots.get j →
    m.word.family = 0x2 ∧ j.val = m.stack.depth
  key : after.key ≠ m.key →
    m.word.family = 0xE ∧ m.word.low ∈ ([0x9E, 0xA1] : List UInt8) ∨
    m.word.family = 0xF ∧ m.word.low = 0x0A
  drawn : after.drawn ≠ m.drawn → m.word.family = 0xC
  config : after.config = m.config
  completed : after.completed = m.completed + 1

theorem changesOnly_of_step {now : Int} (h : m.step random now = (.ok .advanced, after)) :
    ChangesOnly m after := by
  obtain ⟨i, flow, k, pc, hf, hx, -, rfl⟩ := step_advanced h
  obtain ⟨-, hi⟩ := fetch_eq_ok_iff.1 hf
  have hfoot := footprint_of_execute hx
  constructor
  case screen =>
    intro hne
    exact Instruction.ChangesScreen.word
      (Classical.byContradiction fun hn => hne (hfoot.screen hn)) hi
  case memory =>
    intro a hne
    have ha : a ∈ i.cells m.index := Classical.byContradiction fun hn => hne (hfoot.memory a hn)
    exact ⟨stores_of_mem_cells hi ha, cells_of_execute hx ha⟩
  case registers =>
    intro z hne
    exact Instruction.writesRegister_of_mem
      (Classical.byContradiction fun hn => hne (hfoot.registers z hn)) hi
  case index =>
    intro hne
    exact Instruction.MovesIndex.word (Classical.byContradiction fun hn => hne (hfoot.index hn)) hi
  case key =>
    intro hne
    exact Instruction.TakesKey.word (Classical.byContradiction fun hn => hne (hfoot.key hn)) hi
  case stack =>
    intro hne
    cases i with
    | ret => exact .inl hi
    | call target => exact .inr hi.1
    | _ => exact absurd (hfoot.stack (by simp) (by simp)) hne
  case slots =>
    intro j hne
    cases i with
    | call target =>
      refine ⟨hi.1, Classical.byContradiction fun hj => hne (hfoot.slots j ?_)⟩
      rintro _ -
      exact hj
    | _ => exact absurd (hfoot.slots j (by simp)) hne
  case drawn =>
    intro hne
    cases i with
    | random x mask => exact hi.1
    | _ => exact absurd (hfoot.drawn (by simp)) hne
  case config => exact hfoot.config
  case completed => exact congrArg (· + 1) hfoot.completed

/-! ## Histories -/

theorem memoryEdit?_of_mem_moments {cs : List Command} (hcs : ∀ c ∈ cs, c.memoryEdit? = none)
    {x : Moment} (hx : x ∈ m.moments random cs) : x.command.memoryEdit? = none := by
  rcases step_or_mem_of_mem_moments hx with ⟨now, hc⟩ | hc
  · rw [hc]
    rfl
  · exact hcs _ hc

/-- What an executed instruction writes to is what its word stores to, and it goes on. -/
theorem stores_of_mem_cells_moment {x : Moment} (hc : x.command.memoryEdit? = none) {a : Nat}
    (ha : a ∈ x.cells random) :
    (x.machine.perform random x.command).1 = .ok (.status .advanced) ∧ x.machine.Stores a := by
  obtain ⟨k, c⟩ := x
  simp only [Moment.cells, hc] at ha
  cases hx : Moment.executed? random ⟨k, c⟩ with
  | none =>
    rw [hx] at ha
    cases ha
  | some i =>
    rw [hx] at ha
    obtain ⟨now, status, after, rfl, hf, hs⟩ := Moment.executed?_eq_some_iff.1 hx
    refine ⟨?_, stores_of_mem_cells (fetch_eq_ok_iff.1 hf).2 ha⟩
    cases status with
    | advanced => rw [perform_step_fst, hs]; rfl
    | waitingForKey =>
      -- An instruction that waits writes nothing.
      obtain ⟨y, hy, -, -⟩ := step_waiting hs
      rw [hf] at hy
      cases hy
      cases ha

/-- A step that goes on changes each part of a machine only under the words that are there to
change it, and memory only where these store. Hence the bytes to which none of the words executed
in a history stores are the same at its end, however long it is, unless the host writes to memory
itself. -/
theorem step_changes_only (random : RandomBytes) :
    (∀ {m after : Machine} {now : Int}, m.step random now = (.ok .advanced, after) →
      ChangesOnly m after) ∧
    ∀ {m : Machine} {cs : List Command} {a : Nat}, (∀ c ∈ cs, c.memoryEdit? = none) →
      (∀ x ∈ m.moments random cs,
        (x.machine.perform random x.command).1 = .ok (.status .advanced) → ¬x.machine.Stores a) →
      (m.performAll random cs).memory.byte a = m.memory.byte a := by
  refine ⟨changesOnly_of_step, fun {m cs a} hcs hstores => byte_performAll cs ?_⟩
  intro x hx ha
  obtain ⟨hadvanced, hstored⟩ :=
    stores_of_mem_cells_moment (memoryEdit?_of_mem_moments hcs hx) ha
  exact hstores x hx hadvanced hstored

/-- A machine about to store two registers. -/
def storingPair : Machine :=
  { new { block := .increment } with
    memory := Memory.initial.overlay 0x200 #[0xF1, 0x55] (by decide)
    registers := Registers.zero.set 1 9
    index := 0x300 }

theorem stored_pair_changes_only :
    ∃ after, storingPair.step (fun _ => 0) 0 = (.ok .advanced, after) ∧
      ChangesOnly storingPair after ∧ after.index = 0x302 ∧ after.memory.byte 0x301 = 9 ∧
      (storingPair.performAll (fun _ => 0) [.step 0]).memory.byte 0x302 =
        storingPair.memory.byte 0x302 := by
  obtain ⟨hchanges, hkept⟩ := step_changes_only fun _ => 0
  have hf : storingPair.fetch = .ok (.store 1) :=
    fetch_of_overlay (p := 0x200) ⟨by decide, rfl⟩ rfl (by decide) rfl rfl ⟨rfl, rfl, rfl⟩
  obtain ⟨memory, hw⟩ : ∃ memory, storingPair.memory.writeBlock (0x300 : Nat) [0, 9] = .ok memory :=
    ⟨_, rfl⟩
  have hbyte : memory.byte 0x301 = 9 := by
    obtain ⟨start, fits, hstart, -, rfl⟩ := Memory.writeBlock_ok hw
    obtain rfl : 0x300 = start := by omega
    rw [Memory.byte_overlay]
    rfl
  have hx : (storingPair.tick 0).execute (fun _ => 0) (.store 1) =
      (.ok .next, { storingPair.tick 0 with memory := memory, index := 0x302 }) := by
    simp only [execute, storeRegisters]
    split
    · rename_i f hw'
      cases hw'.symm.trans hw
    · rename_i memory' hw'
      cases hw'.symm.trans hw
      rfl
  have hs := step_of_execute hf hx
  -- The word stores up to the address before this one.
  have hout : ¬storingPair.Stores 0x302 := by
    obtain ⟨hfamily, hlow, hregister⟩ := (fetch_eq_ok_iff.1 hf).2
    have hindex : storingPair.index = 0x300 := rfl
    simp only [Stores, hfamily, hlow, hregister, hindex]
    decide
  refine ⟨_, hs, hchanges hs, rfl, hbyte, hkept (by simp [Command.memoryEdit?]) ?_⟩
  simp only [moments, momentsOf, List.append_nil, List.mem_singleton]
  rintro x rfl -
  exact hout

end Machine

end ChipVm
