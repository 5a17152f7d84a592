/-
Configuration files: JSON with an indent of two, in UTF-8. What is saved is read back.
-/
import ChipVm.Config.Make
import ChipVm.Json.Reader
import ChipVm.Json.Writer

namespace ChipVm.Config

/-- The text that a configuration is saved as. -/
def save (c : Config) : String := c.toJson.write (.indented 2)

/-- The configuration in a text. -/
def ofText (cs : List Char) : Except Error Config :=
  match Json.read cs with
  | .ok v => ofJson v
  | .error .malformed => .error .malformedJson
  | .error (.tooLong digits) => .error (.numeralTooLong digits)

/-- The configuration in a file, given by its bytes if there is one. -/
def load : Option ByteArray → Except Error Config
  | none => .error .noFile
  | some bytes =>
    match String.fromUTF8? bytes with
    | some s => ofText s.toList
    | none => .error .notUtf8

end ChipVm.Config
