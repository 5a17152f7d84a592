/-
The difference of two snapshots: for the processor and the timers each field that changed with its
value before and after, for the rest whether it changed at all.
-/
import ChipVm.Digits
import ChipVm.Snapshot.Basic

namespace ChipVm

/-! ## Fields -/

/-- A field of the processor part. -/
inductive CpuField where
  | register (i : Nat)
  | index
  | pc
  | depth
  | stack
  | completed
  deriving DecidableEq

/-- A field of the timer part. -/
inductive TimerField where
  | delay
  | sound
  deriving DecidableEq

/-- What a field holds. -/
inductive FieldValue where
  | number (n : Int)
  | addresses (ns : List Int)
  deriving DecidableEq

namespace CpuField

/-- The name of a field; a register is named by its number to base sixteen. -/
def name : CpuField → String
  | .register i => "v" ++ Digits.lowerHex i
  | .index => "index"
  | .pc => "pc"
  | .depth => "sp"
  | .stack => "stack"
  | .completed => "instruction_count"

end CpuField

namespace TimerField

/-- The name of a field. -/
def name : TimerField → String
  | .delay => "delay"
  | .sound => "sound"

end TimerField

/-! ## Changes -/

/-- A field that changed. -/
structure Change (Field : Type) where
  field : Field
  before : FieldValue
  after : FieldValue
  deriving DecidableEq

/-- The change of a field, if its values differ. -/
def Change.between {Field : Type} (field : Field) (before after : FieldValue) :
    List (Change Field) :=
  if before = after then [] else [⟨field, before, after⟩]

/-- The changed fields of the parts, and whether the rest changed. -/
structure Diff where
  cpu : List (Change CpuField)
  timers : List (Change TimerField)
  program : Bool
  display : Bool
  key : Bool
  deriving DecidableEq

namespace Diff

/-- No change. -/
def empty : Diff := ⟨[], [], false, false, false⟩

/-- Whether there is no change. -/
def isEmpty (d : Diff) : Bool :=
  d.cpu.isEmpty && d.timers.isEmpty && !d.program && !d.display && !d.key

/-- The changes of the registers from number `i` on, as far as both lists reach. -/
def registers : Nat → List Int → List Int → List (Change CpuField)
  | i, b :: before, a :: after =>
    Change.between (.register i) (.number b) (.number a) ++ registers (i + 1) before after
  | _, _, _ => []

/-- The changes of the processor part. -/
def ofCpu (before after : CpuSnapshot) : List (Change CpuField) :=
  registers 0 before.registers after.registers ++
    Change.between .index (.number before.index) (.number after.index) ++
    Change.between .pc (.number before.pc) (.number after.pc) ++
    Change.between .depth (.number before.depth) (.number after.depth) ++
    Change.between .stack (.addresses before.stack) (.addresses after.stack) ++
    Change.between .completed (.number before.completed) (.number after.completed)

/-- The changes of the timer part. -/
def ofTimers (before after : TimerSnapshot) : List (Change TimerField) :=
  Change.between .delay (.number before.delay) (.number after.delay) ++
    Change.between .sound (.number before.sound) (.number after.sound)

/-- The difference of two snapshots. -/
def between (before after : Snapshot) : Diff where
  cpu := ofCpu before.cpu after.cpu
  timers := ofTimers before.timers after.timers
  program := before.program ≠ after.program
  display := before.display ≠ after.display
  key := before.key ≠ after.key

/-- The difference to a snapshot from an earlier one, if there is an earlier one. -/
def since (before : Option Snapshot) (after : Snapshot) : Diff :=
  match before with
  | some b => between b after
  | none => empty

end Diff

end ChipVm
