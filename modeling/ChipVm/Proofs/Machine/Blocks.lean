/-
Blocks of registers in memory. A store writes the registers up to one of them at the index and a
fill reads them back; the index then stays or stands right behind the block, which lies in memory,
so that sixteen bits are always enough for it. In a history whose only moves of the index and writes
to memory are stores, these follow one another in memory under the one rule, and lie on top of one
another under the other.
-/
import ChipVm.Proofs.Machine.Writes
import Mathlib.Algebra.Ring.Nat

namespace ChipVm

/-! ## Bytes of memory -/

namespace Memory

/-- The bytes from an address on. -/
def bytesFrom (m : Memory) (a n : Nat) : List UInt8 := (List.range n).map fun k => m.byte (a + k)

theorem length_bytesFrom (m : Memory) (a n : Nat) : (m.bytesFrom a n).length = n := by
  rw [bytesFrom, List.length_map, List.length_range]

theorem bytesFrom_add (m : Memory) (a k n : Nat) :
    m.bytesFrom a (k + n) = m.bytesFrom a k ++ m.bytesFrom (a + k) n := by
  simp only [bytesFrom, List.range_add, List.map_append, List.map_map, Function.comp_def,
    Nat.add_assoc]

theorem bytesFrom_congr {m k : Memory} {a n : Nat}
    (h : ∀ i < n, k.byte (a + i) = m.byte (a + i)) : k.bytesFrom a n = m.bytesFrom a n :=
  List.map_congr_left fun i hi => h i (List.mem_range.1 hi)

theorem bytesFrom_writeBlock {m k : Memory} {a : Nat} {data : List UInt8}
    (h : m.writeBlock a data = .ok k) : k.bytesFrom a data.length = data := by
  obtain ⟨start, fits, hs, -, rfl⟩ := writeBlock_ok h
  obtain rfl : a = start := by omega
  refine List.ext_getElem (length_bytesFrom _ _ _) fun i _ hi => ?_
  simp [bytesFrom, byte_overlay, hi]

theorem readBlock_eq_bytesFrom {m : Memory} {a len : Nat} (h : a + len ≤ 4096) :
    m.readBlock a len = .ok (m.bytesFrom a len) := by
  cases hr : m.readBlock a len with
  | error f =>
    obtain ⟨hout, -⟩ := checkRange_eq_error_iff.1 (readBlock_eq_error_iff.1 hr)
    omega
  | ok bs =>
    obtain ⟨rfl, -⟩ := readBlock_natCast hr
    rw [slice_eq_map m h, Nat.add_sub_cancel_left]
    rfl

end Memory

theorem Registers.getElem?_upTo (r : Registers) {j x : Fin 16} (h : j ≤ x) :
    (r.upTo x)[j.val]? = some (r.get j) := by
  have hj : j.val < x.val + 1 := Nat.lt_succ_of_le h
  simp [upTo, hj, get]

theorem Memory.bytesFrom_eq_upTo_iff {m : Memory} {r : Registers} {a : Nat} {x : Fin 16} :
    m.bytesFrom a (x.val + 1) = r.upTo x ↔ ∀ j ≤ x, m.byte (a + j.val) = r.get j := by
  constructor
  · intro h j hj
    have hj' : j.val < x.val + 1 := Nat.lt_succ_of_le hj
    have hget := congrArg (·[j.val]?) h
    simpa [bytesFrom, hj', Registers.getElem?_upTo _ hj] using hget
  · intro h
    refine List.ext_getElem (by rw [length_bytesFrom, Registers.length_upTo]) fun i hi hi' => ?_
    rw [length_bytesFrom] at hi
    have hget := r.getElem?_upTo (j := ⟨i, by omega⟩) (Nat.le_of_lt_succ hi)
    rw [List.getElem?_eq_getElem hi', ← h ⟨i, by omega⟩ (Nat.le_of_lt_succ hi)] at hget
    simpa [bytesFrom] using (Option.some.inj hget).symm

/-- Registers loaded from a block of memory. -/
theorem Registers.get_load_bytesFrom (r : Registers) (m : Memory) (a : Nat) (x j : Fin 16) :
    (r.load ((m.bytesFrom a (x.val + 1)).map fun b => (b.toNat : Int))).2.get j =
      if j ≤ x then m.byte (a + j.val) else r.get j := by
  rw [load, get_loadFrom, if_pos (Nat.zero_le _), Nat.sub_zero]
  by_cases hj : j ≤ x
  · have hj' : j.val < x.val + 1 := Nat.lt_succ_of_le hj
    simp [Memory.bytesFrom, hj', hj]
  · have hj' : ¬j.val < x.val + 1 := fun h => hj (Nat.le_of_lt_succ h)
    simp [Memory.bytesFrom, hj', hj]

namespace Machine

variable {random : RandomBytes} {m after : Machine} {x : Fin 16} {now : Int} {status : Status}

/-! ## One transfer -/

/-- Where a transfer of the registers up to `x` leaves the index: where it was, or right behind the
block, as the configuration says. -/
structure PassesBlock (x : Fin 16) (m after : Machine) : Prop where
  bound : m.index + x.val + 1 ≤ 4096
  keep : m.config.block = .keep → after.index = m.index
  increment : m.config.block = .increment → after.index = m.index + x.val + 1

/-- What a store of the registers up to `x` leaves in memory. -/
structure Stored (x : Fin 16) (m after : Machine) : Prop extends PassesBlock x m after where
  bytes : ∀ j ≤ x, after.memory.byte (m.index + j) = m.registers.get j
  others : ∀ a ∉ List.range' m.index (x.val + 1), after.memory.byte a = m.memory.byte a

/-- What a fill of the registers up to `x` leaves in them. -/
structure Filled (x : Fin 16) (m after : Machine) : Prop extends PassesBlock x m after where
  registers : ∀ j ≤ x, after.registers.get j = m.memory.byte (m.index + j)
  others : ∀ j > x, after.registers.get j = m.registers.get j

theorem fetch_of_bytes {k : Machine} (hpc : k.pc = m.pc)
    (hbyte : ∀ p, m.pc ≤ p → p ≤ m.pc + 1 → k.memory.byte p = m.memory.byte p) :
    k.fetch = m.fetch := by
  have hword : k.word = m.word := by
    rw [word, word, hpc, hbyte _ (Nat.le_refl _) (Nat.le_succ _),
      hbyte _ (Nat.le_succ _) (Nat.le_refl _)]
  rcases Nat.lt_or_ge 4094 m.pc with hp | hp
  · rw [fetch_of_lt hp, fetch_of_lt (hpc ▸ hp), hpc]
  · rw [fetch_of_le hp, fetch_of_le (hpc ▸ hp), hpc, hword]

theorem pc_le_of_step (h : m.step random now = (.ok status, after)) : m.pc ≤ 4094 := by
  obtain ⟨i, flow, k, hf, -, -⟩ := step_ok h
  exact (fetch_eq_ok_iff.1 hf).1

theorem passesBlock (h : m.index + x.val + 1 ≤ 4096) (hindex : after.index = m.indexAfterBlock x) :
    PassesBlock x m after := by
  refine ⟨h, fun hb => ?_, fun hb => ?_⟩
  · rw [hindex, indexAfterBlock, hb]
  · rw [hindex, indexAfterBlock, hb]
    exact Nat.mod_eq_of_lt (by omega)

theorem stored_of_step (hf : m.fetch = .ok (.store x))
    (h : m.step random now = (.ok status, after)) : Stored x m after := by
  obtain ⟨i, flow, k, pc, completed, hf', hx, rfl⟩ := step_touches h
  obtain rfl : i = .store x := Except.ok.inj (hf'.symm.trans hf)
  have hothers := (frame_of_execute hx).memory
  obtain ⟨memory, hw, -, rfl⟩ := storeRegisters_ok hx
  have hlength := m.registers.length_upTo x
  have hbytes : memory.bytesFrom m.index (x.val + 1) = m.registers.upTo x := by
    rw [← hlength]
    exact Memory.bytesFrom_writeBlock hw
  obtain ⟨hbound, -⟩ := writeBlock_index_ok hlength hw
  exact { passesBlock hbound rfl with
    bytes := Memory.bytesFrom_eq_upTo_iff.1 hbytes, others := hothers }

theorem filled_of_step (hf : m.fetch = .ok (.fill x))
    (h : m.step random now = (.ok status, after)) : Filled x m after := by
  obtain ⟨i, flow, k, pc, completed, hf', hx, rfl⟩ := step_touches h
  obtain rfl : i = .fill x := Except.ok.inj (hf'.symm.trans hf)
  obtain ⟨values, hread, -, rfl⟩ := fillRegisters_ok hx
  have hbound := readBlock_index_ok hread
  obtain rfl : m.memory.bytesFrom m.index (x.val + 1) = values :=
    Except.ok.inj ((Memory.readBlock_eq_bytesFrom hbound).symm.trans hread)
  have hget := m.registers.get_load_bytesFrom m.memory m.index x
  exact { passesBlock hbound rfl with
    registers := fun j hj => (hget j).trans (if_pos hj)
    others := fun j hj => (hget j).trans (if_neg (Fin.not_le.2 hj)) }

/-- A fill gets back what a store has put at the same place, if it is still there. -/
theorem Filled.restores {stored inner : Machine} {y : Fin 16} (hs : Stored x m stored)
    (hf : Filled y inner after) (hy : y ≤ x) (hindex : inner.index = m.index)
    (hbytes : ∀ j ≤ x, inner.memory.byte (m.index + j) = stored.memory.byte (m.index + j)) :
    ∀ j ≤ y, after.registers.get j = m.registers.get j := by
  intro j hj
  have hjx : j ≤ x := Nat.le_trans hj hy
  rw [hf.registers j hj, hindex, hbytes j hjx, hs.bytes j hjx]

end Machine

/-! ## Histories of stores -/

namespace Moment

variable {random : RandomBytes}

/-- The registers and how far they are stored, if a moment executes a store. -/
def store? (random : RandomBytes) (k : Moment) : Option (Registers × Fin 16) :=
  match k.executed? random with
  | some (.store x) => some (k.machine.registers, x)
  | _ => none

/-- Whether a moment executes a store or leaves the index and memory alone. -/
def OnlyStores (random : RandomBytes) (k : Moment) : Prop :=
  (∃ x, k.executed? random = some (.store x)) ∨
    (k.machine.perform random k.command).2.index = k.machine.index ∧
      (k.machine.perform random k.command).2.memory = k.machine.memory

theorem OnlyStores.cases {k : Moment} (h : k.OnlyStores random) :
    (∃ x, k.store? random = some (k.machine.registers, x) ∧
      Machine.Stored x k.machine (k.machine.perform random k.command).2) ∨
    k.store? random = none ∧
      (k.machine.perform random k.command).2.index = k.machine.index ∧
      (k.machine.perform random k.command).2.memory = k.machine.memory := by
  by_cases hx : ∃ x, k.executed? random = some (.store x)
  · obtain ⟨x, hx⟩ := hx
    obtain ⟨now, status, after, hc, hf, hs⟩ := executed?_eq_some_iff.1 hx
    refine .inl ⟨x, by rw [store?, hx], ?_⟩
    rw [hc, Machine.perform_step_snd, hs]
    exact Machine.stored_of_step hf hs
  · refine .inr ⟨?_, h.resolve_left hx⟩
    unfold store?
    split
    · rename_i x he
      exact absurd ⟨x, he⟩ hx
    · rfl

end Moment

namespace Machine

variable {random : RandomBytes} {m : Machine} {cs : List Command}

/-- The stores of a history: the registers at each and how far they are stored. -/
def stores (random : RandomBytes) (m : Machine) (cs : List Command) : List (Registers × Fin 16) :=
  (m.moments random cs).filterMap (Moment.store? random)

/-- What each store and whatever else leaves the index and memory alone keeps holds after a history
of nothing else. -/
theorem stores_induction {motive : List (Registers × Fin 16) → Machine → Prop}
    (start : motive [] m)
    (store : ∀ ps k x after, motive ps k → k.config = m.config → Stored x k after →
      motive (ps ++ [(k.registers, x)]) after)
    (other : ∀ ps k after, motive ps k → after.index = k.index → after.memory = k.memory →
      motive ps after)
    (h : ∀ k ∈ m.moments random cs, k.OnlyStores random) :
    motive (m.stores random cs) (m.performAll random cs) := by
  refine (moments_induction (motive := fun past k => (∀ x ∈ past, x.OnlyStores random) →
    k.config = m.config ∧ motive (past.filterMap (Moment.store? random)) k)
    (fun past k c hc ih hpast => ?_) (fun _ => ⟨rfl, start⟩) cs h).2
  obtain ⟨hconfig, hk⟩ := ih fun x hx => hpast x (List.mem_append_left _ hx)
  refine ⟨(config_performAll random k [c]).trans hconfig, ?_⟩
  have honly := hpast ⟨k, c⟩ (List.mem_append_right _ List.mem_cons_self)
  rw [List.filterMap_append]
  obtain ⟨x, hx, hstored⟩ | ⟨hnone, hindex, hmemory⟩ := honly.cases
  · rw [List.filterMap_cons_some hx]
    exact store _ k x _ hk hconfig hstored
  · rw [List.filterMap_cons_none hnone, List.filterMap_nil, List.append_nil]
    exact other _ k _ hk hindex hmemory

/-- The blocks of some stores, one behind the other. -/
def storedBlocks (ps : List (Registers × Fin 16)) : List UInt8 := ps.flatMap fun p => p.1.upTo p.2

theorem length_storedBlocks (ps : List (Registers × Fin 16)) :
    (storedBlocks ps).length = (ps.map fun p => p.2.val + 1).sum := by
  simp only [storedBlocks, List.length_flatMap, Registers.length_upTo]

/-- Where stores that move the index past their blocks leave it and the blocks. -/
structure StoredBehind (m : Machine) (ps : List (Registers × Fin 16)) (k : Machine) : Prop where
  index : k.index = m.index + (ps.map fun p => p.2.val + 1).sum
  bytes : k.memory.bytesFrom m.index (storedBlocks ps).length = storedBlocks ps

theorem StoredBehind.concat {ps : List (Registers × Fin 16)} {k after : Machine} {x : Fin 16}
    (h : StoredBehind m ps k) (hrule : k.config.block = .increment) (hs : Stored x k after) :
    StoredBehind m (ps ++ [(k.registers, x)]) after := by
  have hblocks :
      storedBlocks (ps ++ [(k.registers, x)]) = storedBlocks ps ++ k.registers.upTo x := by
    simp [storedBlocks]
  have hlength : (storedBlocks ps ++ k.registers.upTo x).length =
      (storedBlocks ps).length + (x.val + 1) := by
    rw [List.length_append, Registers.length_upTo]
  have hindex : k.index = m.index + (storedBlocks ps).length := by
    rw [length_storedBlocks]
    exact h.index
  -- The new block lies behind the old ones, which it therefore leaves as they are.
  have hbefore : after.memory.bytesFrom m.index (storedBlocks ps).length = storedBlocks ps := by
    refine (Memory.bytesFrom_congr fun i hi => hs.others _ fun hmem => ?_).trans h.bytes
    rw [List.mem_range'_1] at hmem
    omega
  constructor
  · rw [← length_storedBlocks, hblocks, hlength, hs.increment hrule, hindex]
    omega
  · rw [hblocks, hlength, Memory.bytesFrom_add, hbefore, ← hindex,
      Memory.bytesFrom_eq_upTo_iff.2 hs.bytes]

/-- What stores at one place leave there: each byte is as the last store has put it that reaches
so far. -/
structure StoredOver (m : Machine) (ps : List (Registers × Fin 16)) (k : Machine) : Prop where
  index : k.index = m.index
  last : ∀ (before : List (Registers × Fin 16)) (r : Registers) (x : Fin 16)
    (after : List (Registers × Fin 16)), ps = before ++ (r, x) :: after →
    ∀ j ≤ x, (∀ p ∈ after, p.2 < j) → k.memory.byte (m.index + j) = r.get j
  untouched : ∀ j : Fin 16, (∀ p ∈ ps, p.2 < j) →
    k.memory.byte (m.index + j) = m.memory.byte (m.index + j)

theorem StoredOver.concat {ps : List (Registers × Fin 16)} {k after : Machine} {x : Fin 16}
    (h : StoredOver m ps k) (hrule : k.config.block = .keep) (hs : Stored x k after) :
    StoredOver m (ps ++ [(k.registers, x)]) after := by
  have hothers (j : Fin 16) (hj : x < j) :
      after.memory.byte (m.index + j) = k.memory.byte (m.index + j) := by
    refine hs.others _ fun hmem => ?_
    have := h.index
    rw [List.mem_range'_1] at hmem
    omega
  refine ⟨(hs.keep hrule).trans h.index, fun before r y rest hps j hj hrest => ?_, fun j hj => ?_⟩
  · rcases List.eq_nil_or_concat rest with rfl | ⟨rest, p, rfl⟩
    · obtain ⟨-, hlast⟩ := List.append_inj' hps rfl
      cases hlast
      rw [← h.index]
      exact hs.bytes j hj
    · rw [List.concat_eq_append, ← List.cons_append, ← List.append_assoc] at hps
      obtain ⟨hps', hlast⟩ := List.append_inj' hps rfl
      cases hlast
      rw [hothers j (hrest (k.registers, x) (by simp))]
      exact h.last before r y rest hps' j hj fun p hp => hrest p (by simp [hp])
  · rw [hothers j (hj (k.registers, x) (by simp))]
    exact h.untouched j fun p hp => hj p (List.mem_append_left _ hp)

/-- A store that goes through leaves the registers in memory at the index, and a fill takes them from
there and leaves the others; both leave the index where it was or right behind the block. So a fill
gets back what a store has put at the same place, whatever has happened in between, if the block is
still there. And in a history in which only stores move the index or write to memory, the blocks
follow one another from the first index on, or each byte is as the last store has put it that
reaches so far. -/
theorem blocks_stored_and_restored (random : RandomBytes) :
    (∀ {m after : Machine} {now : Int} {status : Status},
      m.word.family = 0xF ∧ m.word.low = 0x55 → m.step random now = (.ok status, after) →
      Stored m.word.x m after) ∧
    (∀ {m after : Machine} {now : Int} {status : Status},
      m.word.family = 0xF ∧ m.word.low = 0x65 → m.step random now = (.ok status, after) →
      Filled m.word.x m after) ∧
    (∀ {m stored after : Machine} {now last : Int} {status status' : Status} {cs : List Command},
      m.word.family = 0xF ∧ m.word.low = 0x55 → m.step random now = (.ok status, stored) →
      let inner := stored.performAll random cs
      inner.index = m.index →
      (∀ j ≤ m.word.x,
        inner.memory.byte (m.index + j) = stored.memory.byte (m.index + j)) →
      inner.word.family = 0xF ∧ inner.word.low = 0x65 → inner.word.x ≤ m.word.x →
      inner.step random last = (.ok status', after) →
      ∀ j ≤ inner.word.x, after.registers.get j = m.registers.get j) ∧
    ∀ {m : Machine} {cs : List Command}, (∀ k ∈ m.moments random cs, k.OnlyStores random) →
      (m.config.block = .increment →
        StoredBehind m (m.stores random cs) (m.performAll random cs)) ∧
      (m.config.block = .keep →
        StoredOver m (m.stores random cs) (m.performAll random cs)) := by
  have hstored {m after : Machine} {now : Int} {status : Status}
      (hw : m.word.family = 0xF ∧ m.word.low = 0x55) (h : m.step random now = (.ok status, after)) :
      Stored m.word.x m after :=
    stored_of_step (fetch_eq_ok_iff.2 ⟨pc_le_of_step h, hw.1, hw.2, rfl⟩) h
  have hfilled {m after : Machine} {now : Int} {status : Status}
      (hw : m.word.family = 0xF ∧ m.word.low = 0x65) (h : m.step random now = (.ok status, after)) :
      Filled m.word.x m after :=
    filled_of_step (fetch_eq_ok_iff.2 ⟨pc_le_of_step h, hw.1, hw.2, rfl⟩) h
  refine ⟨hstored, hfilled, ?_, ?_⟩
  · intro m stored after now last status status' cs hw hs inner hindex hbytes hw' hx hs'
    exact (hfilled hw' hs').restores (hstored hw hs) hx hindex hbytes
  · intro m cs h
    constructor
    · intro hrule
      refine stores_induction ⟨rfl, rfl⟩ (fun ps k x after hk hconfig hs => ?_)
        (fun ps k after hk hindex hmemory => ?_) h
      · exact hk.concat (hconfig ▸ hrule) hs
      · exact ⟨hindex.trans hk.index, by rw [hmemory, hk.bytes]⟩
    · intro hrule
      refine stores_induction ⟨rfl, ?_, fun _ _ => rfl⟩ (fun ps k x after hk hconfig hs => ?_)
        (fun ps k after hk hindex hmemory => ?_) h
      · rintro before r x after hnil
        cases before <;> cases hnil
      · exact hk.concat (hconfig ▸ hrule) hs
      · exact ⟨hindex.trans hk.index, hmemory ▸ hk.last, hmemory ▸ hk.untouched⟩

/-- A machine about to store two registers, to load the first of them and to fill it again. -/
def storingAndFilling : Machine :=
  { new { block := .keep } with
    memory := Memory.initial.overlay 0x200 #[0xF1, 0x55, 0x60, 0x07, 0xF0, 0x65] (by decide)
    registers := (Registers.zero.set 0 5).set 1 9
    index := 0x300 }

theorem filled_after_load :
    ∃ stored after, storingAndFilling.step (fun _ => 0) 0 = (.ok .advanced, stored) ∧
      (stored.performAll (fun _ => 0) [.step 1]).registers.get 0 = 7 ∧
      (stored.performAll (fun _ => 0) [.step 1]).step (fun _ => 0) 2 = (.ok .advanced, after) ∧
      after.registers.get 0 = 5 ∧
      StoredOver storingAndFilling [(storingAndFilling.registers, 1)]
        (storingAndFilling.performAll (fun _ => 0) [.step 0, .step 1]) := by
  obtain ⟨hstored, -, hrestored, hstores⟩ := blocks_stored_and_restored fun _ => 0
  have hm : ∃ fits, storingAndFilling.memory =
      Memory.initial.overlay 0x200 #[0xF1, 0x55, 0x60, 0x07, 0xF0, 0x65] fits := ⟨by decide, rfl⟩
  have hf : storingAndFilling.fetch = .ok (.store 1) :=
    fetch_of_overlay (p := 0x200) hm rfl (by decide) rfl rfl ⟨rfl, rfl, rfl⟩
  obtain ⟨-, hfamily, hlow, hregister⟩ := fetch_eq_ok_iff.1 hf
  obtain ⟨stored, hs, hpc⟩ := step_of_store hf (by decide) (by decide) (fun _ => 0) 0
  have hblock : Stored 1 storingAndFilling stored := by
    rw [← hregister]
    exact hstored ⟨hfamily, hlow⟩ hs
  -- The block does not reach the words to come.
  have hfetch {k : Machine} {p : Nat} (hmemory : k.memory = stored.memory) (hpc : k.pc = p)
      (hp : p + 1 < 0x300) : k.fetch = fetch { storingAndFilling with pc := p } := by
    refine fetch_of_bytes hpc fun q _ hq => ?_
    rw [hmemory]
    refine hblock.others q fun hmem => ?_
    rw [List.mem_range'_1] at hmem
    exact Nat.not_le.2 (Nat.lt_of_le_of_lt hq hp) hmem.1
  have hload : stored.fetch = .ok (.loadByte 0 7) := by
    rw [hfetch rfl hpc (by decide)]
    exact fetch_of_overlay (p := 0x202) hm rfl (by decide) rfl rfl ⟨rfl, rfl, rfl⟩
  obtain ⟨inner, hi, hregisters, hmemory, hindex, hpc'⟩ : ∃ inner,
      stored.step (fun _ => 0) 1 = (.ok .advanced, inner) ∧
      inner.registers = stored.registers.set 0 7 ∧ inner.memory = stored.memory ∧
      inner.index = stored.index ∧ inner.pc = stored.pc + 2 :=
    ⟨_, step_of_execute hload rfl, rfl, rfl, rfl, rfl⟩
  have hperform : stored.performAll (fun _ => 0) [.step 1] = inner := by
    rw [performAll, performAll, perform_step_snd, hi]
  have hindex' : inner.index = storingAndFilling.index := hindex.trans (hblock.keep rfl)
  have hfill : inner.fetch = .ok (.fill 0) := by
    rw [hfetch hmemory (by rw [hpc', hpc]) (by decide)]
    exact fetch_of_overlay (p := 0x204) hm rfl (by decide) rfl rfl ⟨rfl, rfl, rfl⟩
  obtain ⟨after, ha⟩ := step_of_fill hfill (by rw [hindex']; decide) (fun _ => 0) 2
  refine ⟨stored, after, hs, ?_, hperform ▸ ha, ?_, ?_⟩
  · rw [hperform, hregisters, Registers.get_set, if_pos rfl]
  · obtain ⟨-, hfamily', hlow', hregister'⟩ := fetch_eq_ok_iff.1 hfill
    exact hrestored ⟨hfamily, hlow⟩ hs (by rw [hperform, hindex'])
      (fun j _ => by rw [hperform, hmemory]) (by rw [hperform]; exact ⟨hfamily', hlow'⟩)
      (by rw [hperform, hregister']; exact Nat.zero_le _) (by rw [hperform]; exact ha) 0
      (Nat.zero_le _)
  · have hmoments : storingAndFilling.moments (fun _ => 0) [.step 0, .step 1] =
        [⟨storingAndFilling, .step 0⟩, ⟨stored, .step 1⟩] := by
      simp only [moments, momentsOf, perform_step_snd, hs, List.singleton_append, List.append_nil]
    have hexecuted : Moment.executed? (fun _ => 0) ⟨storingAndFilling, .step 0⟩ =
        some (.store 1) := Moment.executed?_step_ok hf hs
    have hexecuted' : Moment.executed? (fun _ => 0) ⟨stored, .step 1⟩ =
        some (.loadByte 0 7) := Moment.executed?_step_ok hload hi
    have hprefix : storingAndFilling.stores (fun _ => 0) [.step 0, .step 1] =
        [(storingAndFilling.registers, 1)] := by
      rw [stores, hmoments, List.filterMap_cons_some (b := (storingAndFilling.registers, 1)),
        List.filterMap_cons_none, List.filterMap_nil]
      · rw [Moment.store?, hexecuted']
      · rw [Moment.store?, hexecuted]
    rw [← hprefix]
    refine (hstores ?_).2 rfl
    simp only [hmoments, List.mem_cons, List.not_mem_nil, or_false]
    rintro k (rfl | rfl)
    · exact .inl ⟨1, hexecuted⟩
    · refine .inr ?_
      rw [perform_step_snd, hi]
      exact ⟨hindex, hmemory⟩

end Machine

end ChipVm
