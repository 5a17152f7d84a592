/-
Text as a sequence of Unicode code points. A JSON string may name one half of a surrogate pair on
its own, so a text is not always a string of characters; every string is a text.
-/
namespace ChipVm

/-- A Unicode code point, the surrogates included. -/
abbrev CodePoint := Fin 0x110000

namespace CodePoint

/-- The code point of a character. -/
def ofChar (c : Char) : CodePoint :=
  ⟨c.toNat, by
    have := c.valid
    simp only [UInt32.isValidChar, Nat.isValidChar] at this
    simp only [Char.toNat]
    omega⟩

/-- The character at a code point that is no surrogate. -/
def toChar? (p : CodePoint) : Option Char :=
  if h : p.val.isValidChar then some (Char.ofNatAux p.val h) else none

/-- The first half of a surrogate pair. -/
def isHighSurrogate (p : CodePoint) : Bool := 0xD800 ≤ p.val && p.val < 0xDC00

/-- The second half of a surrogate pair. -/
def isLowSurrogate (p : CodePoint) : Bool := 0xDC00 ≤ p.val && p.val < 0xE000

end CodePoint

/-- A sequence of code points. -/
structure Text where
  points : List CodePoint
  deriving DecidableEq, Inhabited

namespace Text

/-- The text of a list of characters. -/
def ofChars (cs : List Char) : Text := ⟨cs.map CodePoint.ofChar⟩

/-- The text of a string. -/
def ofString (s : String) : Text := ofChars s.toList

instance : Coe String Text := ⟨ofString⟩

instance : Append Text := ⟨fun a b => ⟨a.points ++ b.points⟩⟩

/-- The texts one after another with `separator` between neighbours. -/
def join (separator : Text) : List Text → Text
  | [] => ⟨[]⟩
  | [t] => t
  | t :: ts => t ++ separator ++ join separator ts

@[simp] theorem points_append (a b : Text) : (a ++ b).points = a.points ++ b.points := rfl

end Text

end ChipVm
