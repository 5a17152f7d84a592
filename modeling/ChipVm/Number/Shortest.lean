/-
The shortest decimal that reads back as a given binary64 value, and of the shortest ones the
nearest. It is written positionally from `1e-4` up to below `1e16`, and with an exponent outside.
-/
import ChipVm.Number.Binary64

namespace ChipVm.Binary64

/-! ## The digits -/

/-- A decimal `d₁.d₂d₃… * 10 ^ exponent`. -/
structure Decimal where
  digits : List Nat
  exponent : Int
  deriving DecidableEq

/-- Compares `c * 10 ^ p` with `k * 2 ^ s`. -/
def compareDecimal (c : Nat) (p : Int) (k : Nat) (s : Int) : Ordering :=
  compare (c * Nat.pow 10 p.toNat * Nat.pow 2 (-s).toNat)
    (k * Nat.pow 2 s.toNat * Nat.pow 10 (-p).toNat)

/-- Whether `c * 10 ^ p` rounds to `m * 2 ^ e`. In quarters of the unit `2 ^ e` the reals that do so
reach from `4 m - 2` to `4 m + 2`, from `4 m - 1` at a power of two, whose lower neighbour is
nearer; the ends belong to an even `m`. -/
def roundsTo (c : Nat) (p : Int) (m : Nat) (e : Int) : Bool :=
  let low := if m = Nat.pow 2 52 ∧ -1074 < e then 4 * m - 1 else 4 * m - 2
  let high := 4 * m + 2
  let atEnd := m % 2 == 0
  (match compareDecimal c p low (e - 2) with
    | .lt => false | .eq => atEnd | .gt => true) &&
  (match compareDecimal c p high (e - 2) with
    | .lt => true | .eq => atEnd | .gt => false)

/-- The exponent of the first decimal digit of `num / den`. -/
def decimalExponent (num den : Nat) : Int :=
  if den ≤ num then ((Digits.toBase 10 (num / den)).length : Int) - 1
  else -((Digits.toBase 10 ((den + num - 1) / num - 1)).length : Int)

/-- The multiple of `10 ^ p` next to `m * 2 ^ e` that rounds to it: of two the nearer, of two
equally near the even one. -/
def candidate? (m : Nat) (e p : Int) : Option Nat :=
  let floor := m * Nat.pow 2 e.toNat * Nat.pow 10 (-p).toNat /
    (Nat.pow 2 (-e).toNat * Nat.pow 10 p.toNat)
  match roundsTo floor p m e, roundsTo (floor + 1) p m e with
  | false, false => none
  | true, false => some floor
  | false, true => some (floor + 1)
  | true, true =>
    match compareDecimal (2 * floor + 1) p (8 * m) (e - 2) with
    | .gt => some floor
    | .lt => some (floor + 1)
    | .eq => some (if floor % 2 = 0 then floor else floor + 1)

/-- The first candidate with one digit, two digits, and so on. -/
def search (m : Nat) (e first : Int) : Nat → Nat → Option (Nat × Int)
  | 0, _ => none
  | tries + 1, count =>
    let p := first - count + 1
    match candidate? m e p with
    | some c => some (c, p)
    | none => search m e first tries (count + 1)

/-- Seventeen digits always suffice. -/
def maxSearch : Nat := 17

/-- The shortest decimal that reads back as `m * 2 ^ e`. -/
def shortest (m : Nat) (e : Int) : Decimal :=
  if m = 0 then ⟨[0], 0⟩
  else
    let first := decimalExponent (m * Nat.pow 2 e.toNat) (Nat.pow 2 (-e).toNat)
    let (c, p) := (search m e first maxSearch 1).getD (0, 0)
    let digits := Digits.toBase 10 c
    ⟨(digits.reverse.dropWhile (· == 0)).reverse, p + (digits.length : Int) - 1⟩

/-! ## The text -/

/-- Whether a decimal whose first digit has this exponent is written without one. -/
def positional (exponent : Int) : Bool := -4 ≤ exponent && exponent < 16

/-- Digits with a point after the first `whole` of them; a zero fills an empty fraction. -/
def pointed (digits : List Nat) (whole : Nat) : List Char :=
  let filled := digits ++ List.replicate (whole - digits.length) 0
  let fraction := filled.drop whole
  (filled.take whole).map Digits.lower ++
    '.' :: (if fraction = [] then [0] else fraction).map Digits.lower

/-- An exponent with its sign and at least two digits. -/
def exponentChars (exponent : Int) : List Char :=
  let digits := (Digits.toBase 10 exponent.natAbs).map Digits.lower
  (if exponent < 0 then '-' else '+') :: List.replicate (2 - digits.length) '0' ++ digits

namespace Decimal

/-- The decimal as text. -/
def chars (d : Decimal) : List Char :=
  if positional d.exponent then
    if 0 ≤ d.exponent then pointed d.digits (d.exponent.toNat + 1)
    else pointed (List.replicate (-d.exponent).toNat 0 ++ d.digits) 1
  else
    let whole := (d.digits.take 1).map Digits.lower
    let fraction := (d.digits.drop 1).map Digits.lower
    whole ++ (if fraction = [] then [] else '.' :: fraction) ++ 'e' :: exponentChars d.exponent

end Decimal

/-- The text of a value, given the texts of not-a-number and of infinity. -/
def text (nanText infinityText : String) : Binary64 → String
  | .nan => nanText
  | .infinite negative => (if negative then "-" else "") ++ infinityText
  | .finite negative m e =>
    (if negative then "-" else "") ++ String.ofList (shortest m e).chars

end ChipVm.Binary64
