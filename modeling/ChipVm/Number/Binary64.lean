/-
Binary floating point with 53 significant bits, held exactly: a finite value is a natural mantissa
times a power of two. A decimal is read to the nearest value, a half going to the even mantissa.
-/
import ChipVm.Digits

namespace ChipVm

/-- A binary64 value. A finite one is `± mantissa * 2 ^ exponent`, with `mantissa < 2 ^ 53`,
`-1074 ≤ exponent`, and `2 ^ 52 ≤ mantissa` unless `exponent = -1074`. -/
inductive Binary64 where
  | nan
  | infinite (negative : Bool)
  | finite (negative : Bool) (mantissa : Nat) (exponent : Int)
  deriving DecidableEq, Inhabited

namespace Binary64

/-! ## Rounding -/

/-- The natural number nearest to `num / den`, a half going to the even neighbour. -/
def divNearest (num den : Nat) : Nat :=
  let q := num / den
  let r := num % den
  if 2 * r < den then q
  else if den < 2 * r then q + 1
  else if q % 2 = 0 then q else q + 1

-- What `^` stands for depends on the modules imported, so powers are written `Nat.pow`.
/-- The ratio `num / den` divided by `2 ^ e`. -/
def scaleDown (num den : Nat) (e : Int) : Nat × Nat :=
  (num * Nat.pow 2 (-e).toNat, den * Nat.pow 2 e.toNat)

/-- The exponent at which the whole part of `num / den` has 53 bits, or the least exponent. -/
def exponentFor (num den : Nat) : Int :=
  let low : Int := (Nat.log2 num : Int) - (Nat.log2 den : Int) - 53
  let (n, d) := scaleDown num den low
  max (if n / d < Nat.pow 2 53 then low else low + 1) (-1074)

/-- The value nearest to `num / den`; what rounds beyond the largest value is infinite. -/
def ofRatio (negative : Bool) (num den : Nat) : Binary64 :=
  if num = 0 then .finite negative 0 (-1074)
  else
    let e := exponentFor num den
    let (n, d) := scaleDown num den e
    let m := divNearest n d
    let (m, e) := if m = Nat.pow 2 53 then (Nat.pow 2 52, e + 1) else (m, e)
    if 971 < e then .infinite negative else .finite negative m e

/-- The value nearest to `digits * 10 ^ exponent`. Magnitudes far outside the range are settled by
their number of digits, so that no huge power is computed. -/
def ofDecimal (negative : Bool) (digits : Nat) (exponent : Int) : Binary64 :=
  let size := ((Digits.toBase 10 digits).length : Int) + exponent
  if digits = 0 ∨ size < -330 then .finite negative 0 (-1074)
  else if 330 < size then .infinite negative
  else ofRatio negative (digits * Nat.pow 10 exponent.toNat) (Nat.pow 10 (-exponent).toNat)

/-! ## As an integer -/

/-- The magnitude of a finite value without its fraction. -/
def wholePart (mantissa : Nat) (exponent : Int) : Nat :=
  mantissa * Nat.pow 2 exponent.toNat / Nat.pow 2 (-exponent).toNat

/-- A finite value rounded toward zero. -/
def truncate? : Binary64 → Option Int
  | .finite negative m e => some (if negative then -(wholePart m e : Int) else wholePart m e)
  | _ => none

/-- The integer that a value is, if it is one; both zeros are the integer zero. -/
def toInt? : Binary64 → Option Int
  | .finite negative m e =>
    if wholePart m e * Nat.pow 2 (-e).toNat = m * Nat.pow 2 e.toNat then
      (Binary64.finite negative m e).truncate?
    else none
  | _ => none

/-- Whether a value is at most zero; not a number is not. -/
def isNonpositive : Binary64 → Bool
  | .nan => false
  | .infinite negative => negative
  | .finite negative m _ => negative || m == 0

end Binary64

end ChipVm
