/-
Snapshots: the part of a machine's state that a host compares. What memory holds below the program,
the tick reference and the configuration are not part of it.
-/
import ChipVm.Machine.Basic
import ChipVm.Screen.Pixels

namespace ChipVm

/-- The processor part of a snapshot. -/
structure CpuSnapshot where
  registers : List Int
  index : Int
  pc : Int
  depth : Int
  stack : List Int
  completed : Int
  deriving DecidableEq

/-- The timer part of a snapshot. -/
structure TimerSnapshot where
  delay : Int
  sound : Int
  deriving DecidableEq

/-- What a host sees of a machine at one moment. -/
structure Snapshot where
  cpu : CpuSnapshot
  timers : TimerSnapshot
  program : Array UInt8
  display : Array UInt8
  key : Option Int
  deriving DecidableEq

namespace Machine

/-- The snapshot of a machine: the program space byte by byte, and a byte one or zero a pixel. -/
def snapshot (m : Machine) : Snapshot where
  cpu := {
    registers := m.registers.cells.toList.map fun v => (v.toNat : Int)
    index := m.index
    pc := m.pc
    depth := m.stack.depth
    stack := m.stack.live.map Int.ofNat
    completed := m.completed }
  timers := { delay := m.timers.delay.toNat, sound := m.timers.sound.toNat }
  program := m.memory.programSpace.toArray
  display := (m.screen.pixels.map fun b => if b then (1 : UInt8) else 0).toArray
  key := m.key.map fun k => (k.digit.val : Int)

end Machine

end ChipVm
