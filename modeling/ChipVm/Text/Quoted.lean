/-
Quoted text: a text between single quotes, or between double quotes if it holds a single quote and
no double one. The quote and the backslash are escaped, and so is all that is not printable.
-/
import ChipVm.Digits
import ChipVm.Text.Printable

namespace ChipVm.Text

/-- The lower-case digits of `n` to base sixteen, filled with zeros up to `width`. -/
def escapeDigits (width n : Nat) : List Char :=
  let digits := (Digits.toBase 16 n).map Digits.lower
  List.replicate (width - digits.length) '0' ++ digits

/-- How one code point shows between two `quote` characters. -/
def quotedPoint (quote : Char) (p : CodePoint) : List CodePoint :=
  let escaped (cs : List Char) := ('\\' :: cs).map CodePoint.ofChar
  if p = CodePoint.ofChar quote then escaped [quote]
  else if p.val = 0x5C then escaped ['\\']
  else if p.val = 0x0A then escaped ['n']
  else if p.val = 0x0D then escaped ['r']
  else if p.val = 0x09 then escaped ['t']
  else if p.isPrintable then [p]
  else if p.val < 0x100 then escaped ('x' :: escapeDigits 2 p.val)
  else if p.val < 0x10000 then escaped ('u' :: escapeDigits 4 p.val)
  else escaped ('U' :: escapeDigits 8 p.val)

/-- The quote character that a text is shown between. -/
def quoteFor (t : Text) : Char :=
  if t.points.any (·.val = 0x27) && !t.points.any (·.val = 0x22) then '"' else '\''

/-- The text between quotes. -/
def quoted (t : Text) : Text :=
  let quote := t.quoteFor
  ⟨CodePoint.ofChar quote :: t.points.flatMap (quotedPoint quote) ++ [CodePoint.ofChar quote]⟩

end ChipVm.Text
