/-
Writing JSON, in ASCII: all on one line, or one field or element a line with an indent.
-/
import ChipVm.Json.Basic
import ChipVm.Number.Shortest

namespace ChipVm.Json

/-! ## Strings -/

/-- A unit of sixteen bits as an escape. -/
def unitEscape (n : Nat) : List Char :=
  let digits := (Digits.toBase 16 n).map Digits.lower
  '\\' :: 'u' :: List.replicate (4 - digits.length) '0' ++ digits

/-- How one code point is written inside a string; beyond sixteen bits as a surrogate pair. -/
def pointChars (p : CodePoint) : List Char :=
  if p.val = 0x22 then ['\\', '"']
  else if p.val = 0x5C then ['\\', '\\']
  else if p.val = 0x0A then ['\\', 'n']
  else if p.val = 0x0D then ['\\', 'r']
  else if p.val = 0x09 then ['\\', 't']
  else if p.val = 0x0C then ['\\', 'f']
  else if p.val = 0x08 then ['\\', 'b']
  else if 0x20 ≤ p.val ∧ p.val < 0x7F then [Char.ofNat p.val]
  else if p.val < 0x10000 then unitEscape p.val
  else
    unitEscape (0xD800 + (p.val - 0x10000) / 0x400) ++
      unitEscape (0xDC00 + (p.val - 0x10000) % 0x400)

/-- A string between its quotes. -/
def stringChars (t : Text) : List Char := '"' :: t.points.flatMap pointChars ++ ['"']

/-! ## Values -/

/-- Where lines break. -/
inductive Layout where
  | line
  | indented (width : Nat)

namespace Layout

/-- What stands before an element at a depth. -/
def breakAt (l : Layout) (depth : Nat) : List Char :=
  match l with
  | .line => []
  | .indented width => '\n' :: List.replicate (width * depth) ' '

/-- What stands between the name of a field and its value. -/
def colon : Layout → List Char
  | .line => [':']
  | .indented _ => [':', ' ']

end Layout

mutual

/-- A value whose first line begins at a depth. -/
def chars (l : Layout) (depth : Nat) : Json → List Char
  | .null => ['n', 'u', 'l', 'l']
  | .bool true => ['t', 'r', 'u', 'e']
  | .bool false => ['f', 'a', 'l', 's', 'e']
  | .int n => Digits.decimalChars n
  | .real x => (x.text "NaN" "Infinity").toList
  | .str t => stringChars t
  | .arr [] => ['[', ']']
  | .arr (v :: vs) =>
    '[' :: l.breakAt (depth + 1) ++ chars l (depth + 1) v ++ elementChars l (depth + 1) vs ++
      l.breakAt depth ++ [']']
  | .obj [] => ['\x7b', '\x7d']
  | .obj ((name, v) :: fields) =>
    '\x7b' :: l.breakAt (depth + 1) ++ stringChars name ++ l.colon ++ chars l (depth + 1) v ++
      fieldChars l (depth + 1) fields ++ l.breakAt depth ++ ['\x7d']

/-- The elements after the first. -/
def elementChars (l : Layout) (depth : Nat) : List Json → List Char
  | [] => []
  | v :: vs => ',' :: l.breakAt depth ++ chars l depth v ++ elementChars l depth vs

/-- The fields after the first. -/
def fieldChars (l : Layout) (depth : Nat) : Fields → List Char
  | [] => []
  | (name, v) :: fields =>
    ',' :: l.breakAt depth ++ stringChars name ++ l.colon ++ chars l depth v ++
      fieldChars l depth fields

end

/-- A value as text. -/
def write (l : Layout) (v : Json) : String := String.ofList (chars l 0 v)

end ChipVm.Json
