/-
Four kilobytes of memory: at the bottom the glyphs of the sixteen digits, which no write touches,
and from `0x200` on the program. A block is checked as a whole before any byte of it is written.
-/
import ChipVm.Fault
import ChipVm.Word

namespace ChipVm

/-! ## Layout -/

namespace Memory

/-- How many bytes there are. -/
abbrev size : Nat := 4096

/-- Where a program image begins. -/
def programStart : Nat := 0x200

/-- The longest program image: one byte less than the space there is. -/
def maxProgram : Nat := 0xFFF - programStart

/-- How many bytes, and rows, a glyph has. -/
def glyphSize : Nat := 5

/-- The glyphs of the digits `0` to `F`, five rows each. -/
def glyphTable : Vector UInt8 80 :=
  #v[0xF0, 0x90, 0x90, 0x90, 0xF0, 0x20, 0x60, 0x20, 0x20, 0x70,
    0xF0, 0x10, 0xF0, 0x80, 0xF0, 0xF0, 0x10, 0xF0, 0x10, 0xF0,
    0x90, 0x90, 0xF0, 0x10, 0x10, 0xF0, 0x80, 0xF0, 0x10, 0xF0,
    0xF0, 0x80, 0xF0, 0x90, 0xF0, 0xF0, 0x10, 0x20, 0x40, 0x40,
    0xF0, 0x90, 0xF0, 0x90, 0xF0, 0xF0, 0x90, 0xF0, 0x10, 0xF0,
    0xF0, 0x90, 0xF0, 0x90, 0x90, 0xE0, 0x90, 0xE0, 0x90, 0xE0,
    0xF0, 0x80, 0x80, 0x80, 0xF0, 0xE0, 0x90, 0x90, 0x90, 0xE0,
    0xF0, 0x80, 0xF0, 0x80, 0xF0, 0xF0, 0x80, 0xF0, 0x80, 0x80]

/-- How many bytes the glyphs take. -/
def glyphEnd : Nat := 80

end Memory

/-- The contents of memory. -/
structure Memory where
  bytes : Vector UInt8 4096
  deriving DecidableEq

namespace Memory

/-- The byte at an address below `4096`, zero above. -/
def byte (m : Memory) (a : Nat) : UInt8 := m.bytes[a]?.getD 0

theorem byte_of_le {m : Memory} {a : Nat} (h : 4096 ≤ a) : m.byte a = 0 := by
  simp [byte, Nat.not_lt.2 h]

theorem ext {m k : Memory} (h : ∀ a < 4096, m.byte a = k.byte a) : m = k := by
  obtain ⟨b⟩ := m
  obtain ⟨c⟩ := k
  congr 1
  refine Vector.ext fun i hi => ?_
  have := h i hi
  simpa [byte, hi] using this

/-- Lays bytes over the memory from an address on. They have to fit in, so that memory keeps its
size. -/
def overlay (m : Memory) (start : Nat) (data : Array UInt8) (fits : start + data.size ≤ 4096) :
    Memory :=
  ⟨⟨m.bytes.toArray.extract 0 start ++ data ++ m.bytes.toArray.extract (start + data.size),
    by simp; omega⟩⟩

/-- Memory as it is at power-on: the glyphs, and zero above them. -/
def initial : Memory := overlay ⟨Vector.replicate 4096 0⟩ 0 glyphTable.toArray (by simp)

instance : Inhabited Memory := ⟨initial⟩

/-- The bytes from `start` up to below `stop`. -/
def slice (m : Memory) (start stop : Nat) : List UInt8 :=
  (m.bytes.toArray.extract start stop).toList

theorem byte_overlay (m : Memory) (start : Nat) (data : Array UInt8)
    (fits : start + data.size ≤ 4096) (a : Nat) :
    (m.overlay start data fits).byte a =
      if start ≤ a then data[a - start]?.getD (m.byte a) else m.byte a := by
  have hs : min start 4096 = start := by omega
  simp only [byte, overlay, Vector.getElem?_mk, Array.getElem?_append, Array.size_append,
    Array.size_extract, Vector.size_toArray, Array.getElem?_extract, Nat.sub_zero, Nat.zero_add, hs]
  rcases Nat.lt_or_ge a start with h | h
  · simp [h, Nat.not_le.2 h, show a < start + data.size by omega]
  · rw [if_pos h]
    rcases Nat.lt_or_ge (a - start) data.size with hd | hd
    · simp [Nat.not_lt.2 h, show a < start + data.size by omega, hd]
    · rw [if_neg (by omega), show start + data.size + (a - (start + data.size)) = a by omega,
        Array.getElem?_eq_none hd, Option.getD_none, Vector.getElem?_toArray]
      split
      · rfl
      · exact (byte_of_le (m := m) (by omega)).symm

theorem byte_initial (a : Nat) : initial.byte a = glyphTable[a]?.getD 0 := by
  rw [initial, byte_overlay, if_pos (Nat.zero_le a), Nat.sub_zero, Vector.getElem?_toArray]
  congr 1
  simp only [byte, Vector.getElem?_replicate]
  split <;> rfl

theorem slice_eq_map (m : Memory) {start stop : Nat} (h : stop ≤ 4096) :
    m.slice start stop = (List.range (stop - start)).map fun i => m.byte (start + i) := by
  refine List.ext_getElem (by simp [slice]; omega) fun i hi _ => ?_
  have hs : start + i < 4096 := by simp [slice] at hi; omega
  simp [slice, byte, hs]

/-! ## Checks -/

/-- A block must lie inside memory; a negative length passes if its end does. -/
def checkRange (a len : Int) : Except Fault Unit :=
  if a < 0 ∨ 4096 < a + len then .error (.invalidAddress a .outOfBounds) else .ok ()

/-- A block to be written must not begin in the glyphs, unless it is empty. -/
def checkWritable (a : Int) (len : Nat) : Except Fault Unit :=
  match checkRange a len with
  | .error e => .error e
  | .ok () => if len ≠ 0 ∧ a < glyphEnd then .error (.invalidAddress a .readOnlyGlyphs) else .ok ()

theorem checkRange_eq_ok_iff {a len : Int} :
    checkRange a len = .ok () ↔ 0 ≤ a ∧ a + len ≤ 4096 := by
  unfold checkRange
  split <;> simp <;> omega

theorem checkRange_eq_error_iff {a len : Int} {f : Fault} :
    checkRange a len = .error f ↔
      (a < 0 ∨ 4096 < a + len) ∧ f = .invalidAddress a .outOfBounds := by
  unfold checkRange
  split <;> simp <;> grind

theorem checkWritable_eq_ok_iff {a : Int} {len : Nat} :
    checkWritable a len = .ok () ↔ 0 ≤ a ∧ a + len ≤ 4096 ∧ (len ≠ 0 → 80 ≤ a) := by
  unfold checkWritable checkRange glyphEnd
  grind

theorem checkWritable_eq_error_iff {a : Int} {len : Nat} {f : Fault} :
    checkWritable a len = .error f ↔
      (a < 0 ∨ 4096 < a + len) ∧ f = .invalidAddress a .outOfBounds ∨
        (0 ≤ a ∧ a + len ≤ 4096 ∧ len ≠ 0 ∧ a < 80) ∧ f = .invalidAddress a .readOnlyGlyphs := by
  unfold checkWritable checkRange glyphEnd
  grind

/-! ## Access -/

/-- The instruction word at an address. -/
def fetch (m : Memory) (pc : Int) : Except Fault Word :=
  if h : pc < 0 ∨ 4096 ≤ pc + 1 then .error (.invalidAddress pc .fetchPastEnd)
  else .ok (.ofBytes m.bytes[pc.toNat] m.bytes[pc.toNat + 1])

/-- A word can be fetched up to the address of the last byte but one. -/
theorem fetch_natCast (m : Memory) (pc : Nat) :
    m.fetch pc = if pc ≤ 4094 then .ok (.ofBytes (m.byte pc) (m.byte (pc + 1)))
      else .error (.invalidAddress pc .fetchPastEnd) := by
  unfold fetch
  split
  · rw [if_neg (by omega)]
  · rename_i h
    rw [if_pos (by omega)]
    simp [byte, show pc < 4096 by omega, show pc + 1 < 4096 by omega]

/-- The byte at an address. -/
def read (m : Memory) (a : Int) : Except Fault UInt8 :=
  match h : checkRange a 1 with
  | .error e => .error e
  | .ok () =>
    have := checkRange_eq_ok_iff.1 h
    .ok m.bytes[a.toNat]

/-- The end of a block, where a negative one counts back from the end of memory. -/
def blockEnd (stop : Int) : Nat := if stop < 0 then (stop + 4096).toNat else stop.toNat

/-- The bytes of a block. -/
def readBlock (m : Memory) (a len : Int) : Except Fault (List UInt8) :=
  (checkRange a len).map fun _ => m.slice a.toNat (blockEnd (a + len))

theorem readBlock_eq_error_iff {m : Memory} {a len : Int} {f : Fault} :
    m.readBlock a len = .error f ↔ checkRange a len = .error f := by
  unfold readBlock
  cases checkRange a len <;> simp [Except.map]

/-- A block of a length that is not negative is read as that many bytes. -/
theorem readBlock_natCast {m : Memory} {a len : Nat} {bs : List UInt8}
    (h : m.readBlock a len = .ok bs) : bs = m.slice a (a + len) ∧ bs.length = len := by
  unfold readBlock at h
  cases hc : checkRange a len with
  | error f => rw [hc] at h; cases h
  | ok u =>
    have hr := checkRange_eq_ok_iff.1 hc
    rw [hc] at h
    cases h
    have hb : blockEnd ((a : Int) + len) = a + len := by unfold blockEnd; split <;> omega
    rw [Int.toNat_natCast, hb]
    exact ⟨rfl, by simp [slice]; omega⟩

/-- Writes a block. -/
def writeBlock (m : Memory) (a : Int) (data : List UInt8) : Except Fault Memory :=
  match h : checkWritable a data.length with
  | .error e => .error e
  | .ok () =>
    have := checkWritable_eq_ok_iff.1 h
    .ok (m.overlay a.toNat data.toArray (by simp only [List.size_toArray]; omega))

/-- A block is written where the check lets it be, and laid over the memory as it is. -/
theorem writeBlock_ok {m k : Memory} {a : Int} {data : List UInt8}
    (h : m.writeBlock a data = .ok k) :
    ∃ (start : Nat) (fits : start + data.toArray.size ≤ 4096),
      a = start ∧ (data.length ≠ 0 → 80 ≤ start) ∧ k = m.overlay start data.toArray fits := by
  unfold writeBlock at h
  split at h
  · cases h
  · rename_i hc
    have hw := checkWritable_eq_ok_iff.1 hc
    cases h
    exact ⟨a.toNat, by simp only [List.size_toArray]; omega, by omega, by omega, rfl⟩

theorem writeBlock_eq_error_iff {m : Memory} {a : Int} {data : List UInt8} {f : Fault} :
    m.writeBlock a data = .error f ↔ checkWritable a data.length = .error f := by
  unfold writeBlock
  split <;> simp_all

/-- Writes a byte. -/
def write (m : Memory) (a v : Int) : Except Fault Memory :=
  match h : checkWritable a 1 with
  | .error e => .error e
  | .ok () =>
    have := checkWritable_eq_ok_iff.1 h
    .ok ⟨m.bytes.set a.toNat (lowByte v)⟩

/-- A byte is written as the block of it alone. -/
theorem write_eq_writeBlock (m : Memory) (a v : Int) :
    m.write a v = m.writeBlock a [lowByte v] := by
  unfold write writeBlock
  simp only [List.length_singleton]
  split
  · rfl
  · rename_i hc
    have hw := checkWritable_eq_ok_iff.1 hc
    congr 1
    refine ext fun i hi => ?_
    rw [byte_overlay]
    simp only [byte, Vector.getElem?_set, List.getElem?_toArray, List.getElem?_singleton]
    rcases Nat.lt_trichotomy i a.toNat with h | rfl | h
    · rw [if_neg (by omega), if_neg (by omega)]
    · simp [hi]
    · rw [if_neg (by omega), if_pos (by omega), if_neg (by omega)]
      rfl

/-- Lays a program image over the memory from `0x200` on; what lies beyond its end stays. -/
def load (m : Memory) (image : List UInt8) : Except Fault Memory :=
  if h : maxProgram < image.length then .error (.programTooLarge image.length maxProgram)
  else .ok (m.overlay programStart image.toArray (by
    simp only [List.size_toArray, programStart, maxProgram] at *
    omega))

/-- Sets the program space to zero and puts the glyphs back. -/
def clear (m : Memory) : Memory :=
  (m.overlay programStart (Array.replicate (size - programStart) 0)
    (by simp [programStart, size])).overlay 0 glyphTable.toArray (by simp)

theorem byte_clear (m : Memory) (a : Nat) :
    m.clear.byte a = if programStart ≤ a then 0 else glyphTable[a]?.getD (m.byte a) := by
  rw [clear, byte_overlay, if_pos (Nat.zero_le a), Nat.sub_zero, byte_overlay,
    Vector.getElem?_toArray, Array.getElem?_replicate]
  unfold programStart
  split
  · rw [Vector.getElem?_eq_none (by omega), Option.getD_none]
    split
    · rfl
    · rename_i hd
      rw [Option.getD_none, byte_of_le (by unfold size at hd; omega)]
  · rfl

/-- The bytes from `0x200` on. -/
def programSpace (m : Memory) : List UInt8 := m.slice programStart size

/-- The bytes of the glyphs. -/
def glyphs (m : Memory) : List UInt8 := m.slice 0 glyphEnd

/-! ## Glyphs -/

/-- A number that is no digit to base sixteen. -/
structure NotADigit where
  given : Int
  deriving DecidableEq

/-- The text of the refusal. -/
def NotADigit.message (e : NotADigit) : Text :=
  ("Glyph digit out of range: " ++ Digits.decimal e.given : String)

/-- Where the glyph of a digit begins. -/
def glyphAddress (digit : Int) : Except NotADigit Int :=
  if 0 ≤ digit ∧ digit ≤ 0xF then .ok (digit * glyphSize) else .error ⟨digit⟩

/-! ## Queries and edits -/

/-- What a host may read. -/
inductive Query where
  | byte (a : Int)
  | block (a len : Int)
  deriving DecidableEq

/-- The bytes that a query asks for. -/
def ask (m : Memory) : Query → Except Fault (List UInt8)
  | .byte a => (m.read a).map fun b => [b]
  | .block a len => m.readBlock a len

/-- A change that a host may make. -/
inductive Edit where
  | write (a v : Int)
  | writeBlock (a : Int) (data : List UInt8)
  | load (image : List UInt8)
  | clear
  deriving DecidableEq

/-- Makes a change. -/
def edit (m : Memory) : Edit → Except Fault Memory
  | .write a v => m.write a v
  | .writeBlock a data => m.writeBlock a data
  | .load image => m.load image
  | .clear => .ok m.clear

end Memory

end ChipVm
