/-
Instruction words of sixteen bits and their fields. Four digits to base sixteen write every word,
and the fields overlap: `w = 4096 * family + address`, `address = 256 * x + low`,
`low = 16 * y + n`.
-/
import ChipVm.Byte
import ChipVm.Digits
import ChipVm.Text.Basic

namespace ChipVm

/-- An instruction word. -/
structure Word where
  bits : UInt16
  deriving DecidableEq, Inhabited

/-- A number outside the range of words. -/
structure WordOutOfRange where
  given : Int
  deriving DecidableEq

/-- The text of the refusal. -/
def WordOutOfRange.message (e : WordOutOfRange) : Text :=
  ("Opcode word out of range: " ++ Digits.decimal e.given : String)

namespace Word

/-- The word as a number below `65536`. -/
def toNat (w : Word) : Nat := w.bits.toNat

theorem toNat_lt (w : Word) : w.toNat < 65536 := w.bits.toNat_lt

/-- The word with a given number, which must be in range. -/
def ofInt (n : Int) : Except WordOutOfRange Word :=
  if 0 ≤ n ∧ n ≤ 0xFFFF then .ok ⟨UInt16.ofNat n.toNat⟩ else .error ⟨n⟩

/-- The word of two bytes, the high one first. -/
def ofBytes (high low : UInt8) : Word := ⟨UInt16.ofNat (256 * high.toNat + low.toNat)⟩

theorem toNat_ofBytes (high low : UInt8) :
    (ofBytes high low).toNat = 256 * high.toNat + low.toNat := by
  have h := high.toNat_lt
  have l := low.toNat_lt
  simp only [ofBytes, toNat, UInt16.toNat_ofNat']
  omega

/-- The word of two integers, each stored as a byte. -/
def ofInts (high low : Int) : Word := ofBytes (lowByte high) (lowByte low)

/-! ## Fields -/

/-- The top four bits, which choose the family of the instruction. -/
def family (w : Word) : Fin 16 := ⟨w.toNat / 4096, by have := w.toNat_lt; omega⟩

/-- The low twelve bits. -/
def address (w : Word) : Nat := w.toNat % 4096

/-- The second four bits, which name the first register. -/
def x (w : Word) : Fin 16 := ⟨w.toNat / 256 % 16, by omega⟩

/-- The third four bits, which name the second register. -/
def y (w : Word) : Fin 16 := ⟨w.toNat / 16 % 16, by omega⟩

/-- The last four bits. -/
def n (w : Word) : Fin 16 := ⟨w.toNat % 16, by omega⟩

/-- The low byte. -/
def low (w : Word) : UInt8 := UInt8.ofNat w.toNat

theorem toNat_low (w : Word) : w.low.toNat = w.toNat % 256 := by
  simp [low, UInt8.toNat_ofNat']

/-- How a word is shown. -/
def literal (w : Word) : String := "Opcode(0x" ++ Digits.hex 4 w.toNat ++ ")"

end Word

end ChipVm
