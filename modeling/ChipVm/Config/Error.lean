/-
Why a configuration is refused, and the text of each refusal.
-/
import ChipVm.Config.Basic
import ChipVm.Json.Literal

namespace ChipVm.Config

/-- What may be given for the shift operand or the block choice: one of either, or any value. -/
inductive Argument where
  | shift (s : ShiftOperand)
  | block (b : BlockIndex)
  | value (v : Json)

/-- Why a configuration is refused. -/
inductive Error where
  /-- Not a shift operand. -/
  | shiftArgument (given : Argument)
  /-- Not a block choice. -/
  | blockArgument (given : Argument)
  /-- Not the name of a shift operand. -/
  | shiftName (given : Json)
  /-- Not the name of a block choice. -/
  | blockName (given : Json)
  /-- Not a numeral. -/
  | rateNumeral (given : Text)
  /-- A numeral with too many digits. -/
  | numeralTooLong (digits : Nat)
  /-- Not-a-number has no integer value. -/
  | rateNotANumber
  /-- Infinity has no integer value. -/
  | rateInfinite
  /-- A value of a kind that has no integer value. -/
  | rateKind (given : Json)
  /-- A value of a kind that does not compare with zero. -/
  | rateOrder (given : Json)
  /-- A rate that is not above zero. -/
  | rateNonpositive (given : Rate)
  /-- Data without fields. -/
  | notAnObject (given : Json)
  /-- A file that holds no JSON text. -/
  | malformedJson
  /-- A file that holds no UTF-8. -/
  | notUtf8
  /-- A file that is not there. -/
  | noFile

namespace Argument

/-- How an argument is shown in a message. -/
def literal : Argument → Text
  | .shift .vx => "<ShiftQuirk.VX: 'vx'>"
  | .shift .vy => "<ShiftQuirk.VY: 'vy'>"
  | .block .keep => "<LoadStoreQuirk.KEEP_INDEX: 'keep_index'>"
  | .block .increment => "<LoadStoreQuirk.INCREMENT_INDEX: 'increment_index'>"
  | .value v => v.literal

end Argument

namespace Error

/-- A refused numeral is shown quoted, by its first 200 characters at most. -/
def shownNumeral (t : Text) : Text := ⟨t.quoted.points.take 200⟩

/-- The text of a refusal; those that come from the file system or the decoder have none here. -/
def message? : Error → Option Text
  | .shiftArgument a => some ("shift must be a ShiftQuirk, got " ++ a.literal)
  | .blockArgument a => some ("load_store must be a LoadStoreQuirk, got " ++ a.literal)
  | .shiftName v => some (v.literal ++ " is not a valid ShiftQuirk")
  | .blockName v => some (v.literal ++ " is not a valid LoadStoreQuirk")
  | .rateNumeral t => some ("invalid literal for int() with base 10: " ++ shownNumeral t)
  | .numeralTooLong n =>
    some ("Exceeds the limit (4300 digits) for integer string conversion: value has " ++
      Digits.decimal n ++ " digits; use sys.set_int_max_str_digits() to increase the limit" :
        String)
  | .rateNotANumber => some "cannot convert float NaN to integer"
  | .rateKind v =>
    some ("int() argument must be a string, a bytes-like object or a real number, not '" ++
      v.kindName ++ "'" : String)
  | .rateOrder v =>
    some ("'<=' not supported between instances of '" ++ v.kindName ++ "' and 'int'" : String)
  | .rateNonpositive r => some ("clock_hz must be positive, got " ++ r.toJson.literal)
  | .notAnObject v => some ("'" ++ v.kindName ++ "' object has no attribute 'get'" : String)
  | .rateInfinite | .malformedJson | .notUtf8 | .noFile => none

end Error

end ChipVm.Config
