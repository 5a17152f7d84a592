/-
The sixteen keys of the keypad, and which values of a host count as a key.
-/
import ChipVm.Byte
import ChipVm.Json.Literal

namespace ChipVm

/-- A key of the keypad. -/
structure Key where
  digit : Fin 16
  deriving DecidableEq, Inhabited

/-- A value that is no key. -/
structure NotAKey where
  given : Json

/-- The text of the refusal. -/
def NotAKey.message (e : NotAKey) : Text := "Not a keypad symbol: " ++ e.given.literal

namespace Key

/-- The name of a key. -/
def name (k : Key) : String := "KEY_" ++ Digits.hex 0 k.digit.val

/-- The key with a number. -/
def ofInt? (n : Int) : Option Key := (nibble? n).map Key.mk

/-- The integer that a value equals, if it equals one: a truth value counts as one or zero. -/
def number? : Json → Option Int
  | .int n => some n
  | .bool b => some (if b then 1 else 0)
  | .real x => x.toInt?
  | _ => none

/-- The key that a host hands over; null takes the pending key away. -/
def ofJson (v : Json) : Except NotAKey (Option Key) :=
  match v with
  | .null => .ok none
  | v =>
    match (number? v).bind ofInt? with
    | some k => .ok (some k)
    | none => .error ⟨v⟩

end Key

end ChipVm
