/-
Memory as an array of bytes. A block is written as a whole or not at all: it has to lie inside
memory and, unless it is empty, behind the glyphs. What is read is what single reads give; lengths
may be negative, and then count from the other end. Writes to blocks that do not meet may be
exchanged, and of two writes to one block the second alone counts.
-/
import ChipVm.Proofs.Machine.Blocks
import ChipVm.Proofs.Machine.Latch

namespace ChipVm

namespace Memory

variable {m k l k' l' : Memory} {a b : Int} {data other : List UInt8}

/-! ## Single bytes -/

theorem read_eq (m : Memory) (i : Int) :
    m.read i = if 0 ≤ i ∧ i < 4096 then .ok (m.byte i.toNat)
      else .error (.invalidAddress i .outOfBounds) := by
  unfold read
  split
  · rename_i f hc
    obtain ⟨hout, rfl⟩ := checkRange_eq_error_iff.1 hc
    rw [if_neg (by omega)]
  · rename_i hc
    obtain ⟨hle, hlt⟩ := checkRange_eq_ok_iff.1 hc
    have hi : i.toNat < 4096 := by omega
    rw [if_pos ⟨hle, by omega⟩]
    simp [byte, hi]

/-- Memories that read the same are the same. -/
theorem ext_read (h : ∀ i : Int, m.read i = k.read i) : m = k := by
  refine ext fun i hi => ?_
  have hread := h i
  rw [read_eq, read_eq, if_pos (by omega), if_pos (by omega)] at hread
  exact Except.ok.inj hread

/-! ## Writing -/

/-- Whether an address lies in the block of a length at `a`. -/
def InBlock (a : Int) (n : Nat) (i : Int) : Prop := a ≤ i ∧ i < a + n

/-- Whether a block may be written: it lies inside memory and, unless it is empty, behind the
glyphs. -/
def Writable (a : Int) (n : Nat) : Prop := 0 ≤ a ∧ a + n ≤ 4096 ∧ (n = 0 ∨ 0x50 ≤ a)

/-- What a write leaves behind: the bytes written, and every other byte as it was. -/
structure Wrote (a : Int) (data : List UInt8) (m k : Memory) : Prop where
  inside : ∀ i (hi : i < data.length), k.read (a + i) = .ok data[i]
  outside : ∀ i, ¬InBlock a data.length i → k.read i = m.read i

theorem Writable.writeBlock (h : Writable a data.length) (m : Memory) :
    ∃ k, m.writeBlock a data = .ok k := by
  cases hw : m.writeBlock a data with
  | error f =>
    obtain ⟨hle, hfits, hglyphs⟩ := h
    obtain ⟨hout, -⟩ | ⟨hout, -⟩ := checkWritable_eq_error_iff.1 (writeBlock_eq_error_iff.1 hw)
    · omega
    · omega
  | ok k => exact ⟨k, rfl⟩

/-- Why a block is not written, if it is not. -/
def writeRefusal (a : Int) (n : Nat) : Fault :=
  .invalidAddress a (if 0 ≤ a ∧ a + n ≤ 4096 then .readOnlyGlyphs else .outOfBounds)

theorem writeBlock_of_not_writable (h : ¬Writable a data.length) (m : Memory) :
    m.writeBlock a data = .error (writeRefusal a data.length) := by
  rw [writeBlock_eq_error_iff, checkWritable_eq_error_iff, writeRefusal]
  split
  · rename_i hrange
    unfold Writable at h
    exact .inr ⟨⟨hrange.1, hrange.2, by omega, by omega⟩, rfl⟩
  · exact .inl ⟨by omega, rfl⟩

theorem wrote_of_writeBlock (h : m.writeBlock a data = .ok k) : Wrote a data m k := by
  obtain ⟨start, fits, rfl, -, rfl⟩ := writeBlock_ok h
  rw [List.size_toArray] at fits
  refine ⟨fun i hi => ?_, fun i hi => ?_⟩
  · rw [read_eq, if_pos (by omega), byte_overlay, if_pos (by omega)]
    have hoffset : ((start : Int) + i).toNat - start = i := by omega
    simp [hoffset, hi]
  · rw [read_eq, read_eq]
    split
    · have hout : i.toNat ∉ List.range' start data.toArray.size := by
        unfold InBlock at hi
        rw [List.mem_range'_1, List.size_toArray]
        omega
      rw [byte_overlay_of_notMem hout]
    · rfl

theorem Wrote.read_inside (h : Wrote a data m k) {i : Int} (hi : InBlock a data.length i) :
    k.read i = .ok (data[(i - a).toNat]?.getD 0) := by
  obtain ⟨hle, hlt⟩ := hi
  have hoffset : (i - a).toNat < data.length := by omega
  have hread := h.inside (i - a).toNat hoffset
  rw [show a + ((i - a).toNat : Int) = i by omega] at hread
  rw [hread, List.getElem?_eq_getElem hoffset, Option.getD_some]

/-- Writes to blocks that do not meet leave the same behind in either order. -/
theorem Wrote.comm (hdisjoint : ∀ i, InBlock a data.length i → ¬InBlock b other.length i)
    (hk : Wrote a data m k) (hl : Wrote b other k l)
    (hk' : Wrote b other m k') (hl' : Wrote a data k' l') : l = l' := by
  refine ext_read fun i => ?_
  by_cases ha : InBlock a data.length i
  · rw [hl.outside i (hdisjoint i ha), hk.read_inside ha, hl'.read_inside ha]
  · rw [hl'.outside i ha]
    by_cases hb : InBlock b other.length i
    · rw [hl.read_inside hb, hk'.read_inside hb]
    · rw [hl.outside i hb, hk.outside i ha, hk'.outside i hb]

/-- A write leaves nothing behind of an earlier one to the same block. -/
theorem Wrote.overwrite (hlength : data.length = other.length) (hk : Wrote a data m k)
    (hl : Wrote a other k l) (hl' : Wrote a other m l') : l = l' := by
  refine ext_read fun i => ?_
  by_cases hi : InBlock a other.length i
  · rw [hl.read_inside hi, hl'.read_inside hi]
  · rw [hl.outside i hi, hl'.outside i hi, hk.outside i (hlength ▸ hi)]

/-! ## Reading -/

/-- Whether bytes are those of memory from one address up to another. -/
structure BytesAt (m : Memory) (start stop : Int) (bs : List UInt8) : Prop where
  length : bs.length = (stop - start).toNat
  bytes : ∀ i (hi : i < bs.length), m.read (start + i) = .ok bs[i]

/-- Where a block of a length ends. With a negative length it has no bytes, unless it would end
below zero: then it ends as far below the end of memory. -/
def blockStop (a n : Int) : Int :=
  if 0 ≤ n then a + n else if a + n < 0 then 4096 + (a + n) else a

theorem readBlock_of_range {n : Int} (m : Memory) (h : 0 ≤ a ∧ a + n ≤ 4096) :
    ∃ bs, m.readBlock a n = .ok bs ∧ m.BytesAt a (blockStop a n) bs := by
  refine ⟨m.slice a.toNat (blockEnd (a + n)), ?_, ?_⟩
  · rw [readBlock, checkRange_eq_ok_iff.2 h]
    rfl
  · have hend : blockEnd (a + n) ≤ 4096 := by
      unfold blockEnd
      split <;> omega
    have hcount : blockEnd (a + n) - a.toNat = (blockStop a n - a).toNat := by
      unfold blockEnd blockStop
      split <;> split <;> omega
    rw [slice_eq_map m hend, hcount]
    refine ⟨by rw [List.length_map, List.length_range], fun i hi => ?_⟩
    rw [List.length_map, List.length_range, ← hcount] at hi
    have haddress : (a + (i : Int)).toNat = a.toNat + i := by omega
    rw [read_eq, if_pos (by omega), haddress, List.getElem_map, List.getElem_range]

theorem readBlock_of_not_range {n : Int} (m : Memory) (h : ¬(0 ≤ a ∧ a + n ≤ 4096)) :
    m.readBlock a n = .error (.invalidAddress a .outOfBounds) :=
  readBlock_eq_error_iff.2 (checkRange_eq_error_iff.2 ⟨by omega, rfl⟩)

theorem range_of_readBlock {n : Int} {bs : List UInt8} (h : m.readBlock a n = .ok bs) :
    0 ≤ a ∧ a + n ≤ 4096 := by
  refine Classical.byContradiction fun hout => ?_
  rw [readBlock_of_not_range m hout] at h
  cases h

/-- A block is read as its two parts are. -/
theorem readBlock_add_eq_ok_iff {p q : Nat} {bs : List UInt8} :
    m.readBlock a (p + q) = .ok bs ↔
      ∃ front back, m.readBlock a p = .ok front ∧ m.readBlock (a + p) q = .ok back ∧
        bs = front ++ back := by
  by_cases hrange : 0 ≤ a ∧ a + (p + q) ≤ 4096
  · obtain ⟨start, rfl⟩ := Int.eq_ofNat_of_zero_le hrange.1
    rw [← Int.natCast_add, ← Int.natCast_add, readBlock_eq_bytesFrom (by omega),
      readBlock_eq_bytesFrom (by omega), readBlock_eq_bytesFrom (by omega), bytesFrom_add]
    simp [eq_comm]
  · constructor
    · intro h
      exact absurd (range_of_readBlock h) hrange
    · rintro ⟨front, back, hfront, hback, -⟩
      obtain ⟨hle, -⟩ := range_of_readBlock hfront
      obtain ⟨-, hfits⟩ := range_of_readBlock hback
      exact absurd ⟨hle, by omega⟩ hrange

end Memory

namespace Machine

variable {random : RandomBytes} {m : Machine} {a b : Int} {data other : List UInt8} {c d : Command}

/-! ## Commands -/

theorem perform_memory_ok {edit : Memory.Edit} {memory : Memory}
    (h : m.memory.edit edit = .ok memory) :
    m.perform random (.memory edit) = (.ok .done, { m with memory := memory }) := by
  simp only [perform, h]

theorem perform_memory_error {edit : Memory.Edit} {f : Fault} (h : m.memory.edit edit = .error f) :
    m.perform random (.memory edit) = (.error (.fault f), m) := by
  simp only [perform, h]

/-- What is refused whenever it is tried may be tried at any time. -/
theorem commute_of_refused {e : Refusal} (h : ∀ k : Machine, k.perform random c = (.error e, k)) :
    m.Commute random c d := by
  simp only [Commute, h, and_self]

theorem Commute.symm (h : m.Commute random c d) : m.Commute random d c :=
  ⟨h.2.1, h.1, h.2.2.symm⟩

theorem perform_writeBlock_of_writable (h : Memory.Writable a data.length) (random : RandomBytes)
    (m : Machine) :
    ∃ memory, m.perform random (.memory (.writeBlock a data)) =
        (.ok .done, { m with memory := memory }) ∧
      Memory.Wrote a data m.memory memory := by
  obtain ⟨memory, hw⟩ := h.writeBlock m.memory
  exact ⟨memory, perform_memory_ok hw, Memory.wrote_of_writeBlock hw⟩

theorem perform_writeBlock_of_not_writable (h : ¬Memory.Writable a data.length)
    (random : RandomBytes) (m : Machine) :
    m.perform random (.memory (.writeBlock a data)) =
      (.error (.fault (Memory.writeRefusal a data.length)), m) :=
  perform_memory_error (Memory.writeBlock_of_not_writable h m.memory)

theorem perform_write (random : RandomBytes) (m : Machine) (a v : Int) :
    m.perform random (.memory (.write a v)) =
      m.perform random (.memory (.writeBlock a [lowByte v])) := by
  simp only [perform, Memory.edit, Memory.write_eq_writeBlock]

theorem commute_writeBlock
    (hdisjoint : ∀ i, Memory.InBlock a data.length i → ¬Memory.InBlock b other.length i)
    (random : RandomBytes) (m : Machine) :
    m.Commute random (.memory (.writeBlock a data)) (.memory (.writeBlock b other)) := by
  by_cases ha : Memory.Writable a data.length
  · by_cases hb : Memory.Writable b other.length
    · obtain ⟨k, hk, hwrote⟩ := perform_writeBlock_of_writable ha random m
      obtain ⟨l, hl, hwrote'⟩ := perform_writeBlock_of_writable hb random { m with memory := k }
      obtain ⟨k', hk', hother⟩ := perform_writeBlock_of_writable hb random m
      obtain ⟨l', hl', hother'⟩ := perform_writeBlock_of_writable ha random { m with memory := k' }
      obtain rfl : l = l' := hwrote.comm hdisjoint hwrote' hother hother'
      simp only [Commute, hk, hl, hk', hl', and_self]
    · exact (commute_of_refused (perform_writeBlock_of_not_writable hb random)).symm
  · exact commute_of_refused (perform_writeBlock_of_not_writable ha random)

theorem perform_overwrite (hlength : data.length = other.length) (random : RandomBytes)
    (m : Machine) (a : Int) :
    (m.perform random (.memory (.writeBlock a data))).2.perform random
        (.memory (.writeBlock a other)) =
      m.perform random (.memory (.writeBlock a other)) := by
  by_cases h : Memory.Writable a other.length
  · obtain ⟨k, hk, hfirst⟩ := perform_writeBlock_of_writable (hlength ▸ h) random m
    obtain ⟨l, hl, hlast⟩ := perform_writeBlock_of_writable h random { m with memory := k }
    obtain ⟨l', hl', halone⟩ := perform_writeBlock_of_writable h random m
    obtain rfl : l = l' := hfirst.overwrite hlength hlast halone
    rw [hk, hl, hl']
  · have hfirst : ¬Memory.Writable a data.length := hlength ▸ h
    rw [perform_writeBlock_of_not_writable hfirst]

/-- A block is written exactly if it lies inside memory and, unless it is empty, behind the glyphs;
then its bytes and no others change, and what is refused changes nothing. A byte is written as a
block. A block that does not end behind memory is read, and is what single reads give; it is read in
parts as it is as a whole. Writes to blocks that do not meet may be exchanged, their refusals
included, and a write leaves nothing behind of an earlier one to the same block. -/
theorem memory_is_a_guarded_array (random : RandomBytes) (m : Machine) :
    (∀ (a : Int) (data : List UInt8),
      (Memory.Writable a data.length →
        ∃ memory, m.perform random (.memory (.writeBlock a data)) =
            (.ok .done, { m with memory := memory }) ∧
          Memory.Wrote a data m.memory memory) ∧
      (¬Memory.Writable a data.length →
        m.perform random (.memory (.writeBlock a data)) =
          (.error (.fault (Memory.writeRefusal a data.length)), m))) ∧
    (∀ a v : Int, ((lowByte v).toNat : Int) = v % 256 ∧
      m.perform random (.memory (.write a v)) =
        m.perform random (.memory (.writeBlock a [lowByte v]))) ∧
    (∀ a n : Int,
      (0 ≤ a ∧ a + n ≤ 4096 →
        ∃ bs, m.memory.readBlock a n = .ok bs ∧
          m.memory.BytesAt a (Memory.blockStop a n) bs) ∧
      (¬(0 ≤ a ∧ a + n ≤ 4096) →
        m.memory.readBlock a n = .error (.invalidAddress a .outOfBounds))) ∧
    (∀ (a : Int) (p q : Nat) (bs : List UInt8),
      m.memory.readBlock a (p + q) = .ok bs ↔
        ∃ front back, m.memory.readBlock a p = .ok front ∧
          m.memory.readBlock (a + p) q = .ok back ∧ bs = front ++ back) ∧
    (∀ (a b : Int) (data other : List UInt8),
      (∀ i, Memory.InBlock a data.length i → ¬Memory.InBlock b other.length i) →
        m.Commute random (.memory (.writeBlock a data)) (.memory (.writeBlock b other))) ∧
    ∀ (a : Int) (data other : List UInt8), data.length = other.length →
      (m.perform random (.memory (.writeBlock a data))).2.perform random
          (.memory (.writeBlock a other)) =
        m.perform random (.memory (.writeBlock a other)) := by
  refine ⟨fun a data => ⟨?_, ?_⟩, fun a v => ⟨toNat_lowByte v, perform_write random m a v⟩,
    fun a n => ⟨m.memory.readBlock_of_range, m.memory.readBlock_of_not_range⟩,
    fun a p q bs => Memory.readBlock_add_eq_ok_iff, fun a b data other hdisjoint => ?_,
    fun a data other hlength => perform_overwrite hlength random m a⟩
  · exact fun h => perform_writeBlock_of_writable h random m
  · exact fun h => perform_writeBlock_of_not_writable h random m
  · exact commute_writeBlock hdisjoint random m

theorem new_machine_guards_its_memory :
    (∃ memory, (new {}).perform (fun _ => 0) (.memory (.writeBlock 0xFFE [7, 8])) =
        (.ok .done, { new {} with memory := memory }) ∧ memory.read 0xFFF = .ok 8) ∧
    (new {}).perform (fun _ => 0) (.memory (.writeBlock 0x4F [7, 8])) =
      (.error (.fault (.invalidAddress 0x4F .readOnlyGlyphs)), new {}) ∧
    (∃ bs, (new {}).memory.readBlock 5 (-6) = .ok bs ∧ bs.length = 4090) ∧
    (new {}).memory.readBlock 0xFFE 3 = .error (.invalidAddress 0xFFE .outOfBounds) ∧
    (new {}).Commute (fun _ => 0) (.memory (.writeBlock 0x300 [7, 8]))
      (.memory (.writeBlock 0x302 [9])) ∧
    ((new {}).perform (fun _ => 0) (.memory (.writeBlock 0x300 [7, 8]))).2.perform (fun _ => 0)
        (.memory (.writeBlock 0x300 [8, 9])) =
      (new {}).perform (fun _ => 0) (.memory (.writeBlock 0x300 [8, 9])) := by
  obtain ⟨hwrites, -, hreads, -, hcommute, hoverwrite⟩ :=
    memory_is_a_guarded_array (fun _ => 0) (new {})
  have hdisjoint : ∀ i, Memory.InBlock 0x300 2 i → ¬Memory.InBlock 0x302 1 i := by
    unfold Memory.InBlock
    omega
  refine ⟨?_, ?_, ?_, ?_, hcommute _ _ _ _ hdisjoint, hoverwrite _ _ _ rfl⟩
  · have hwritable : Memory.Writable 0xFFE 2 := ⟨by decide, by decide, by decide⟩
    obtain ⟨memory, hdone, hwrote⟩ := (hwrites 0xFFE [7, 8]).1 hwritable
    exact ⟨memory, hdone, hwrote.inside 1 (by decide)⟩
  · have hrefused : ¬Memory.Writable 0x4F 2 := fun h => absurd h.2.2 (by decide)
    exact (hwrites 0x4F [7, 8]).2 hrefused
  · obtain ⟨bs, hread, hbytes⟩ := (hreads 5 (-6)).1 (by decide)
    exact ⟨bs, hread, hbytes.length⟩
  · exact (hreads 0xFFE 3).2 (by decide)

end Machine

end ChipVm
