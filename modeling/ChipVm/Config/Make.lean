/-
Making a configuration from arguments, from the fields of a JSON object, or from a host's choice.
The shift operand is judged first, then the block choice, then the rate, and last its sign.
-/
import ChipVm.Config.Error
import ChipVm.Text.Numeral

namespace ChipVm

namespace Config

/-- A configuration whose rate is above zero. -/
def checked (shift : ShiftOperand) (block : BlockIndex) (rate : Rate) : Except Error Config :=
  if rate.isNonpositive then .error (.rateNonpositive rate) else .ok ⟨shift, block, rate⟩

/-! ## From arguments -/

/-- The shift operand given as an argument. -/
def shiftOfArgument : Option Argument → Except Error ShiftOperand
  | none => .ok .vx
  | some (.shift s) => .ok s
  | some a => .error (.shiftArgument a)

/-- The block choice given as an argument. -/
def blockOfArgument : Option Argument → Except Error BlockIndex
  | none => .ok .keep
  | some (.block b) => .ok b
  | some a => .error (.blockArgument a)

/-- A rate given as an argument is kept as it is. -/
def rateOfArgument : Option Json → Except Error Rate
  | none => .ok .standard
  | some (.int n) => .ok (.whole n)
  | some (.real x) => .ok (.real x)
  | some (.bool b) => .ok (.flag b)
  | some v => .error (.rateOrder v)

/-- The configuration with the given arguments; an absent one takes its standard value. -/
def ofArguments (shift block : Option Argument) (rate : Option Json) : Except Error Config := do
  let shift ← shiftOfArgument shift
  let block ← blockOfArgument block
  let rate ← rateOfArgument rate
  checked shift block rate

/-! ## From the fields of an object -/

/-- The shift operand named by a field. -/
def shiftOfField : Option Json → Except Error ShiftOperand
  | none => .ok .vx
  | some v =>
    match v with
    | .str t =>
      match ShiftOperand.ofName? t with
      | some s => .ok s
      | none => .error (.shiftName v)
    | _ => .error (.shiftName v)

/-- The block choice named by a field. -/
def blockOfField : Option Json → Except Error BlockIndex
  | none => .ok .keep
  | some v =>
    match v with
    | .str t =>
      match BlockIndex.ofName? t with
      | some b => .ok b
      | none => .error (.blockName v)
    | _ => .error (.blockName v)

/-- The integer that a field gives for the rate: a real is cut toward zero, a truth value counts as
one or zero, a string is read as a numeral. -/
def rateOfField : Option Json → Except Error Int
  | none => .ok 700
  | some v =>
    match v with
    | .int n => .ok n
    | .bool b => .ok (if b then 1 else 0)
    | .real .nan => .error .rateNotANumber
    | .real x =>
      match x.truncate? with
      | some n => .ok n
      | none => .error .rateInfinite
    | .str t =>
      match Numeral.read t with
      | .ok n => .ok n
      | .error .malformed => .error (.rateNumeral t)
      | .error (.tooLong digits) => .error (.numeralTooLong digits)
    | _ => .error (.rateKind v)

/-- The configuration with the given fields; fields with other names are not looked at. -/
def ofFields (fields : Json.Fields) : Except Error Config := do
  let shift ← shiftOfField (fields.get? "shift")
  let block ← blockOfField (fields.get? "load_store")
  let rate ← rateOfField (fields.get? "clock_hz")
  checked shift block (.whole rate)

/-- The configuration that a JSON value describes. -/
def ofJson : Json → Except Error Config
  | .obj fields => ofFields fields
  | v => .error (.notAnObject v)

/-- The fields of a configuration. -/
def toFields (c : Config) : Json.Fields :=
  [("shift", .str c.shift.name), ("load_store", .str c.block.name), ("clock_hz", c.rate.toJson)]

/-- The object that describes a configuration. -/
def toJson (c : Config) : Json := .obj c.toFields

/-! ## From a choice -/

/-- How a host picks a configuration: by a name, from an object that describes it, or from
arguments. -/
inductive Choice where
  | profile (name : Text)
  | described (data : Json)
  | arguments (shift block : Option Argument) (rate : Option Json)

/-- The configuration that a choice picks. -/
def Choice.pick : Choice → Except Error Config
  | .profile name => .ok (Config.profile name)
  | .described data => ofJson data
  | .arguments shift block rate => ofArguments shift block rate

/-- The configuration that a host picks; a host that makes no choice picks none. -/
def picked : Option Choice → Except Error (Option Config)
  | none => .ok none
  | some choice => choice.pick.map some

/-- Whether two hosts pick the same. No configuration is a pick of its own: it is not the same as
the standard configuration, with which a machine is then made. -/
def samePick (a b : Option Choice) : Except Error Bool := do
  let a ← picked a
  let b ← picked b
  return match a, b with
    | none, none => true
    | some a, some b => a.same b
    | _, _ => false

end Config

end ChipVm
