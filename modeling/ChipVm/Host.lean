/-
What a host may do to a machine, as data: step and run it, hand over keys, load, reset, and change
its parts. A command that is refused leaves its cause behind; what it did before stays done.
-/
import ChipVm.Machine.Step

namespace ChipVm

/-! ## Commands -/

/-- What a host may do. -/
inductive Command where
  | step (now : Int)
  | run (clock : Nat → Int) (cycles : Int)
  | setKey (value : Json)
  | reset
  | load (source : ProgramSource)
  | read (query : Memory.Query)
  | memory (edit : Memory.Edit)
  | registers (edit : Registers.Edit)
  | timers (edit : Timers.Edit)
  | screen (edit : Screen.Edit)

/-- What a command answers. -/
inductive Answer where
  | done
  | status (s : Status)
  | count (n : Nat)
  | flag (b : Bool)
  | bytes (bs : List UInt8)
  deriving DecidableEq

namespace Machine

/-- Carries a command out. -/
def perform (random : RandomBytes) (m : Machine) : Command → Except Refusal Answer × Machine
  | .step now =>
    match m.step random now with
    | (.ok status, m) => (.ok (.status status), m)
    | (.error e, m) => (.error e, m)
  | .run clock cycles =>
    match m.run random clock cycles with
    | (.ok made, m) => (.ok (.count made), m)
    | (.error e, m) => (.error e, m)
  | .setKey value =>
    match Key.ofJson value with
    | .ok key => (.ok .done, m.setKey key)
    | .error e => (.error (.key e), m)
  | .reset => (.ok .done, m.reset)
  | .load source =>
    match source.read with
    | .error e => (.error (.source e), m)
    | .ok image =>
      match m.load image with
      | .ok m => (.ok (.count image.length), m)
      | .error f => (.error (.fault f), m)
  | .read query =>
    match m.memory.ask query with
    | .ok bs => (.ok (.bytes bs), m)
    | .error f => (.error (.fault f), m)
  | .memory edit =>
    match m.memory.edit edit with
    | .ok memory => (.ok .done, { m with memory := memory })
    | .error f => (.error (.fault f), m)
  | .registers edit =>
    match m.registers.edit edit with
    | (.ok (), registers) => (.ok .done, { m with registers := registers })
    | (.error f, registers) => (.error (.fault f), { m with registers := registers })
  | .timers edit =>
    let (through, timers) := m.timers.edit edit
    (.ok (through.elim .done .flag), { m with timers := timers })
  | .screen edit =>
    match m.screen.edit edit with
    | (.ok hit, screen) => (.ok (hit.elim .done .flag), { m with screen := screen })
    | (.error e, screen) => (.error (.column e), { m with screen := screen })

/-- The machine after a list of commands, refused ones included. -/
def performAll (random : RandomBytes) (m : Machine) : List Command → Machine
  | [] => m
  | c :: cs => performAll random (m.perform random c).2 cs

/-! ## Power-on -/

/-- Why a machine cannot be switched on. -/
inductive BootError where
  | config (e : Config.Error)
  | source (e : SourceError)
  | fault (f : Fault)

/-- A machine with the configuration that a host picks, the standard one if it picks none, and with
a program, if there is one. -/
def boot (choice : Option Config.Choice) (program : Option ProgramSource) :
    Except BootError Machine :=
  match Config.picked choice with
  | .error e => .error (.config e)
  | .ok picked =>
    let config := picked.getD {}
    match program.map ProgramSource.read with
    | none => .ok (new config)
    | some (.error e) => .error (.source e)
    | some (.ok image) =>
      match (new config).load image with
      | .ok m => .ok m
      | .error f => .error (.fault f)

end Machine

end ChipVm
