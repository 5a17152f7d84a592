/-
Where a program image comes from, and why an operation is refused: a fault of the machine, a source
that gives no image, a value that is no key, or a column that cannot be drawn at.
-/
import ChipVm.Fault
import ChipVm.Key
import ChipVm.Screen.Basic

namespace ChipVm

/-! ## Program sources -/

/-- Where a program image comes from. -/
inductive ProgramSource where
  | image (bytes : List UInt8)
  | missingFile
  | directory
  | brokenStream

/-- Why no image comes from a source. -/
inductive SourceError where
  | missingFile
  | isDirectory
  | brokenStream
  deriving DecidableEq

/-- The image that a source gives. -/
def ProgramSource.read : ProgramSource → Except SourceError (List UInt8)
  | .image bytes => .ok bytes
  | .missingFile => .error .missingFile
  | .directory => .error .isDirectory
  | .brokenStream => .error .brokenStream

/-! ## Refusals -/

/-- Why an operation is refused. -/
inductive Refusal where
  | fault (f : Fault)
  | source (e : SourceError)
  | key (e : NotAKey)
  | column (e : Screen.ColumnOverflow)

end ChipVm
