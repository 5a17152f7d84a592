/-
Integers written as text: blanks around, a sign, and decimal digits of any script with single
underscores between them. A numeral of more than 4300 digits is refused.
-/
import ChipVm.Digits
import ChipVm.Text.Basic

namespace ChipVm

/-! ## Classes of code points -/

namespace CodePoint

/-- The code points of the digit zero in the scripts that have decimal digits; the nine that follow
each of them are the other digits of that script, by Unicode 14. -/
def zeroDigits : List Nat :=
  [0x30, 0x660, 0x6F0, 0x7C0, 0x966, 0x9E6, 0xA66, 0xAE6, 0xB66, 0xBE6, 0xC66, 0xCE6, 0xD66,
   0xDE6, 0xE50, 0xED0, 0xF20, 0x1040, 0x1090, 0x17E0, 0x1810, 0x1946, 0x19D0, 0x1A80, 0x1A90,
   0x1B50, 0x1BB0, 0x1C40, 0x1C50, 0xA620, 0xA8D0, 0xA900, 0xA9D0, 0xA9F0, 0xAA50, 0xABF0,
   0xFF10, 0x104A0, 0x10D30, 0x11066, 0x110F0, 0x11136, 0x111D0, 0x112F0, 0x11450, 0x114D0,
   0x11650, 0x116C0, 0x11730, 0x118E0, 0x11950, 0x11C50, 0x11D50, 0x11DA0, 0x16A60, 0x16AC0,
   0x16B50, 0x1D7CE, 0x1D7D8, 0x1D7E2, 0x1D7EC, 0x1D7F6, 0x1E140, 0x1E2F0, 0x1E950, 0x1FBF0]

/-- The value of a decimal digit of any script. -/
def digit? (p : CodePoint) : Option Nat :=
  (zeroDigits.find? fun z => z ≤ p.val && p.val < z + 10).map fun z => p.val - z

/-- The blanks allowed around a numeral: tab to carriage return, the space, and the Unicode blanks
beyond ASCII. The four separator controls below the space are not among them. -/
def isBlank (p : CodePoint) : Bool :=
  [(0x9, 0xD), (0x20, 0x20), (0x85, 0x85), (0xA0, 0xA0), (0x1680, 0x1680), (0x2000, 0x200A),
    (0x2028, 0x2029), (0x202F, 0x202F), (0x205F, 0x205F), (0x3000, 0x3000)].any
    fun r => r.1 ≤ p.val && p.val ≤ r.2

end CodePoint

/-! ## Reading -/

/-- Why a text is not read as an integer. -/
inductive NumeralError where
  | malformed
  | tooLong (digits : Nat)
  deriving DecidableEq

namespace Numeral

/-- The most digits a numeral may have. -/
def maxDigits : Nat := 4300

/-- A mark inside a numeral: a digit, or the underscore that may stand between two digits. -/
inductive Mark where
  | digit (value : Nat)
  | underscore
  deriving DecidableEq

/-- The mark at a code point, if it is one. -/
def mark? (p : CodePoint) : Option Mark :=
  if p.val = 0x5F then some .underscore else p.digit?.map .digit

/-- The longest run of marks at the front, and what follows it. -/
def marks : List CodePoint → List Mark × List CodePoint
  | [] => ([], [])
  | p :: rest =>
    match mark? p with
    | none => ([], p :: rest)
    | some m => (m :: (marks rest).1, (marks rest).2)

/-- The digits of a run in which every underscore has a digit on both sides. -/
def digitsOf : List Mark → Option (List Nat)
  | [] => none
  | [.digit d] => some [d]
  | .digit d :: .underscore :: rest => (digitsOf rest).map (d :: ·)
  | .digit d :: rest => (digitsOf rest).map (d :: ·)
  | .underscore :: _ => none

/-- Splits a leading sign off; `true` for minus. -/
def sign : List CodePoint → Bool × List CodePoint
  | [] => (false, [])
  | p :: rest =>
    if p.val = 0x2D then (true, rest)
    else if p.val = 0x2B then (false, rest)
    else (false, p :: rest)

/-- Reads an integer. The run of digits is judged first, then its length, then what follows it. -/
def read (t : Text) : Except NumeralError Int :=
  let (negative, unsigned) := sign (t.points.dropWhile CodePoint.isBlank)
  let (run, rest) := marks unsigned
  match digitsOf run with
  | none => .error .malformed
  | some digits =>
    if maxDigits < digits.length then .error (.tooLong digits.length)
    else if rest.all CodePoint.isBlank then
      let n : Int := Digits.ofBase 10 digits
      .ok (if negative then -n else n)
    else .error .malformed

end Numeral

end ChipVm
