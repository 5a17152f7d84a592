/-
The configuration of a machine: which register the shift instructions read, what a block transfer
does to the index, and the rate at which a host is to step.
-/
import ChipVm.Json.Basic

namespace ChipVm

/-- The register that `8xy6` and `8xyE` shift. -/
inductive ShiftOperand where
  | vx
  | vy
  deriving DecidableEq, Inhabited

/-- What `Fx55` and `Fx65` do to the index: nothing, or move it past the block. -/
inductive BlockIndex where
  | keep
  | increment
  deriving DecidableEq, Inhabited

/-- A number of steps a second. -/
inductive Rate where
  | whole (n : Int)
  | real (x : Binary64)
  | flag (b : Bool)
  deriving DecidableEq, Inhabited

namespace ShiftOperand

/-- The name in a configuration file. -/
def name : ShiftOperand → String
  | .vx => "vx"
  | .vy => "vy"

/-- The operand with a name. -/
def ofName? (t : Text) : Option ShiftOperand :=
  if t = name .vx then some .vx else if t = name .vy then some .vy else none

end ShiftOperand

namespace BlockIndex

/-- The name in a configuration file. -/
def name : BlockIndex → String
  | .keep => "keep_index"
  | .increment => "increment_index"

/-- The choice with a name. -/
def ofName? (t : Text) : Option BlockIndex :=
  if t = name .keep then some .keep else if t = name .increment then some .increment else none

end BlockIndex

namespace Rate

/-- The rate if nothing else is said. -/
def standard : Rate := .whole 700

/-- The rate as a JSON value. -/
def toJson : Rate → Json
  | .whole n => .int n
  | .real x => .real x
  | .flag b => .bool b

/-- Whether a rate is refused for not being above zero. Not-a-number compares with nothing, so it
is not refused. -/
def isNonpositive : Rate → Bool
  | .whole n => n ≤ 0
  | .real x => x.isNonpositive
  | .flag b => !b

/-- The integer that a rate is, if it is one. -/
def toInt? : Rate → Option Int
  | .whole n => some n
  | .real x => x.toInt?
  | .flag b => some (if b then 1 else 0)

/-- Whether two rates are the same number, in whichever way each is given. Not-a-number is not the
same as any. -/
def same (a b : Rate) : Bool :=
  match a.toInt? with
  | some n => b.toInt? = some n
  | none => a = b ∧ a ≠ .real .nan

end Rate

/-- A configuration, fixed for the life of a machine. -/
structure Config where
  shift : ShiftOperand := .vx
  block : BlockIndex := .keep
  rate : Rate := Rate.standard
  deriving DecidableEq, Inhabited

namespace Config

/-- Whether two configurations are the same, with their rates compared as numbers. -/
def same (a b : Config) : Bool :=
  a.shift = b.shift ∧ a.block = b.block ∧ a.rate.same b.rate

/-- The configurations that have a name. -/
def profiles : List (Text × Config) :=
  [("default", {}), ("chip8", { shift := .vy, block := .increment }),
    ("chip48", { shift := .vx, block := .keep })]

/-- The configuration with a name; an unknown name gives the standard one. -/
def profile (name : Text) : Config :=
  match profiles.find? (·.1 = name) with
  | some p => p.2
  | none => {}

end Config

end ChipVm
