/-
The state of a machine, and what a host does to it from outside: load a program, hand over a key,
reset. The random bytes are a stream outside the machine, which counts how many it has taken.
-/
import ChipVm.Config.Make
import ChipVm.Memory
import ChipVm.Refusal
import ChipVm.Registers
import ChipVm.Stack
import ChipVm.Timers

namespace ChipVm

/-- The state of a machine. -/
structure Machine where
  config : Config
  memory : Memory
  screen : Screen
  timers : Timers
  registers : Registers
  /-- The address register `I`. -/
  index : Nat
  /-- Where the next instruction word stands. -/
  pc : Nat
  stack : Stack
  /-- The key that the host handed over last, until an instruction takes it. -/
  key : Option Key
  /-- How many instructions have been completed. -/
  completed : Nat
  /-- How many random bytes have been taken. -/
  drawn : Nat
  deriving DecidableEq

/-- The random bytes, by the order in which they are taken. -/
abbrev RandomBytes := Nat → UInt8

namespace Machine

/-- The machine at power-on. -/
def new (config : Config) : Machine where
  config := config
  memory := .initial
  screen := .blank
  timers := .initial
  registers := .zero
  index := 0
  pc := Memory.programStart
  stack := .empty
  key := none
  completed := 0
  drawn := 0

/-- Back to the state at power-on. What memory holds between the glyphs and the program stays, and
random bytes already taken are not given back. -/
def reset (m : Machine) : Machine :=
  { m with
    memory := m.memory.clear
    screen := .blank
    timers := .initial
    registers := .zero
    index := 0
    pc := Memory.programStart
    stack := .empty
    key := none
    completed := 0 }

/-- Loads a program image. -/
def load (m : Machine) (image : List UInt8) : Except Fault Machine :=
  (m.memory.load image).map fun memory => { m with memory := memory }

/-- Hands over a key in place of the pending one, or takes that away. -/
def setKey (m : Machine) (key : Option Key) : Machine := { m with key := key }

end Machine

end ChipVm
