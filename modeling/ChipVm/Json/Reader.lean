/-
Reading JSON. Beside the standard's values the reader knows `NaN`, `Infinity` and `-Infinity`; the
last of several fields with one name wins. A byte order mark, a raw control character in a string
and an integer of more than 4300 digits are refused.
-/
import ChipVm.Json.Basic
import ChipVm.Text.Numeral

namespace ChipVm.Json

/-- Why a text is not read as JSON. -/
inductive ReadError where
  | malformed
  | tooLong (digits : Nat)
  deriving DecidableEq

/-- A part read from the front of the input, with what follows it. -/
abbrev Read (α : Type) := Except ReadError (α × List Char)

/-- The four blanks of JSON. -/
def isSpace (c : Char) : Bool := c == ' ' || c == '\t' || c == '\n' || c == '\r'

/-- The input after its leading blanks. -/
def skipSpace (cs : List Char) : List Char := cs.dropWhile isSpace

/-! ## Strings -/

/-- The character that a one-letter escape stands for. -/
def escaped? (c : Char) : Option Char :=
  match c with
  | '"' => some '"'
  | '\\' => some '\\'
  | '/' => some '/'
  | 'b' => some '\x08'
  | 'f' => some '\x0c'
  | 'n' => some '\n'
  | 'r' => some '\r'
  | 't' => some '\t'
  | _ => none

/-- The code point named by four digits to base sixteen. -/
def unit? (a b c d : Char) : Option CodePoint := do
  let value := Digits.ofBase 16 [← Digits.hexValue? a, ← Digits.hexValue? b, ← Digits.hexValue? c,
    ← Digits.hexValue? d]
  if h : value < 0x110000 then some ⟨value, h⟩ else none

/-- A string up to its closing quote, every escape on its own. -/
def stringPoints : List Char → Option (List CodePoint × List Char)
  | [] => none
  | '"' :: rest => some ([], rest)
  | '\\' :: 'u' :: a :: b :: c :: d :: rest =>
    match unit? a b c d, stringPoints rest with
    | some p, some (ps, rest) => some (p :: ps, rest)
    | _, _ => none
  | '\\' :: e :: rest =>
    match escaped? e, stringPoints rest with
    | some c, some (ps, rest) => some (CodePoint.ofChar c :: ps, rest)
    | _, _ => none
  | c :: rest =>
    if c.toNat < 0x20 then none
    else
      match stringPoints rest with
      | some (ps, rest) => some (CodePoint.ofChar c :: ps, rest)
      | none => none

/-- The code point that a surrogate pair stands for. -/
def pairPoint (high low : CodePoint) : CodePoint :=
  Fin.ofNat 0x110000 (0x10000 + (high.val - 0xD800) * 0x400 + (low.val - 0xDC00))

/-- Joins each surrogate pair; a surrogate without its partner stays. -/
def joinPairs : List CodePoint → List CodePoint
  | high :: low :: rest =>
    if high.isHighSurrogate && low.isLowSurrogate then pairPoint high low :: joinPairs rest
    else high :: joinPairs (low :: rest)
  | ps => ps

/-- A string after its opening quote. -/
def string (cs : List Char) : Read Text :=
  match stringPoints cs with
  | some (ps, rest) => .ok (⟨joinPairs ps⟩, rest)
  | none => .error .malformed

/-! ## Numbers -/

/-- An ASCII digit. -/
def isDigit (c : Char) : Bool := 48 ≤ c.toNat && c.toNat < 58

/-- The values of ASCII digits. -/
def digitValues (cs : List Char) : List Nat := cs.map fun c => c.toNat - 48

/-- The digits before the point: a zero stands alone. -/
def wholeDigits (cs : List Char) : List Char :=
  match cs with
  | '0' :: _ => ['0']
  | _ => cs.takeWhile isDigit

/-- The digits after a point, none if no digit follows it. -/
def fractionDigits (cs : List Char) : List Char :=
  match cs with
  | '.' :: rest => rest.takeWhile isDigit
  | _ => []

/-- An exponent, if a digit follows its mark and sign: its value and how many characters it has. -/
def exponent? (cs : List Char) : Option (Int × Nat) :=
  match cs with
  | [] => none
  | mark :: rest =>
    if mark = 'e' ∨ mark = 'E' then
      let (negative, signs) := match rest with
        | '-' :: _ => (true, 1)
        | '+' :: _ => (false, 1)
        | _ => (false, 0)
      let digits := (rest.drop signs).takeWhile isDigit
      let n : Int := Digits.ofBase 10 (digitValues digits)
      if digits = [] then none else some (if negative then -n else n, 1 + signs + digits.length)
    else none

/-- A number: an integer unless it has a fraction or an exponent. -/
def number (cs : List Char) : Read Json :=
  let (negative, unsigned) := match cs with
    | '-' :: rest => (true, rest)
    | _ => (false, cs)
  let whole := wholeDigits unsigned
  let rest := unsigned.drop whole.length
  let fraction := fractionDigits rest
  let rest := if fraction = [] then rest else rest.drop (fraction.length + 1)
  if whole = [] then .error .malformed
  else
    match fraction, exponent? rest with
    | [], none =>
      if Numeral.maxDigits < whole.length then .error (.tooLong whole.length)
      else
        let n : Int := Digits.ofBase 10 (digitValues whole)
        .ok (.int (if negative then -n else n), rest)
    | _, e =>
      let (power, used) := e.getD (0, 0)
      let digits := Digits.ofBase 10 (digitValues (whole ++ fraction))
      .ok (.real (.ofDecimal negative digits (power - fraction.length)), rest.drop used)

/-! ## Values -/

mutual

/-- A value at the front of the input. Every call reads a character or ends, so that the length of
the input bounds their depth. -/
def value : Nat → List Char → Read Json
  | 0, _ => .error .malformed
  | fuel + 1, cs =>
    match cs with
    | '"' :: rest =>
      match string rest with
      | .ok (t, rest) => .ok (.str t, rest)
      | .error e => .error e
    | '{' :: rest =>
      match skipSpace rest with
      | '}' :: rest => .ok (.obj [], rest)
      | rest => members fuel [] rest
    | '[' :: rest =>
      match skipSpace rest with
      | ']' :: rest => .ok (.arr [], rest)
      | rest => elements fuel [] rest
    | 'n' :: 'u' :: 'l' :: 'l' :: rest => .ok (.null, rest)
    | 't' :: 'r' :: 'u' :: 'e' :: rest => .ok (.bool true, rest)
    | 'f' :: 'a' :: 'l' :: 's' :: 'e' :: rest => .ok (.bool false, rest)
    | 'N' :: 'a' :: 'N' :: rest => .ok (.real .nan, rest)
    | 'I' :: 'n' :: 'f' :: 'i' :: 'n' :: 'i' :: 't' :: 'y' :: rest =>
      .ok (.real (.infinite false), rest)
    | '-' :: 'I' :: 'n' :: 'f' :: 'i' :: 'n' :: 'i' :: 't' :: 'y' :: rest =>
      .ok (.real (.infinite true), rest)
    | cs => number cs

/-- The rest of an object from the name of a field on. -/
def members : Nat → Fields → List Char → Read Json
  | 0, _, _ => .error .malformed
  | fuel + 1, fields, cs =>
    match cs with
    | '"' :: rest =>
      match string rest with
      | .error e => .error e
      | .ok (name, rest) =>
        match skipSpace rest with
        | ':' :: rest =>
          match value fuel (skipSpace rest) with
          | .error e => .error e
          | .ok (v, rest) =>
            match skipSpace rest with
            | ',' :: rest => members fuel (fields.put name v) (skipSpace rest)
            | '}' :: rest => .ok (.obj (fields.put name v), rest)
            | _ => .error .malformed
        | _ => .error .malformed
    | _ => .error .malformed

/-- The rest of an array from an element on; the elements so far stand in reverse. -/
def elements : Nat → List Json → List Char → Read Json
  | 0, _, _ => .error .malformed
  | fuel + 1, before, cs =>
    match value fuel cs with
    | .error e => .error e
    | .ok (v, rest) =>
      match skipSpace rest with
      | ',' :: rest => elements fuel (v :: before) (skipSpace rest)
      | ']' :: rest => .ok (.arr (v :: before).reverse, rest)
      | _ => .error .malformed

end

/-- Reads a whole text as one value with blanks around it. -/
def read (cs : List Char) : Except ReadError Json :=
  match value (cs.length + 1) (skipSpace cs) with
  | .error e => .error e
  | .ok (v, rest) => if skipSpace rest = [] then .ok v else .error .malformed

end ChipVm.Json
