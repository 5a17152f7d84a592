/-
One step of a machine, and many. A step ticks the timers, then fetches, decodes and executes one
word. A run stops early while the machine waits for a key.
-/
import ChipVm.Machine.Execute

namespace ChipVm

/-- How a step ended. -/
inductive Status where
  | advanced
  | waitingForKey
  deriving DecidableEq

/-- The name of a status. -/
def Status.name : Status → String
  | .advanced => "advanced"
  | .waitingForKey => "waiting_for_key"

namespace Machine

/-- Ticks the timers at a clock reading. -/
def tick (m : Machine) (now : Int) : Machine := { m with timers := (m.timers.tick now).2 }

/-- The instruction at the program counter. -/
def fetch (m : Machine) : Except Fault Instruction :=
  match m.memory.fetch m.pc with
  | .error e => .error e
  | .ok word =>
    match Instruction.decode word with
    | some i => .ok i
    | none => .error (.invalidWord word.toNat (some (m.pc : Int)))

/-- Goes on as the flow says; an instruction that does not wait is completed. -/
def commit (m : Machine) (flow : Flow) : Status × Machine :=
  match flow.target? m.pc with
  | some pc => (.advanced, { m with pc := pc, completed := m.completed + 1 })
  | none => (.waitingForKey, m)

/-- Fetches, decodes and executes one word. -/
def cycle (random : RandomBytes) (m : Machine) : Except Refusal Status × Machine :=
  match m.fetch with
  | .error f => (.error (.fault f), m)
  | .ok i =>
    match m.execute random i with
    | (.error e, after) => (.error e, after)
    | (.ok flow, after) =>
      let (status, after) := after.commit flow
      (.ok status, after)

/-- One step at a clock reading. -/
def step (random : RandomBytes) (now : Int) (m : Machine) : Except Refusal Status × Machine :=
  (m.tick now).cycle random

/-- Up to `cycles` further steps of a run that has made `made`; the step after `n` others reads the
clock as `clock n`. -/
def runFrom (random : RandomBytes) (clock : Nat → Int) (made : Nat) :
    Nat → Machine → Except Refusal Nat × Machine
  | 0, m => (.ok made, m)
  | cycles + 1, m =>
    match m.step random (clock made) with
    | (.error e, after) => (.error e, after)
    | (.ok .waitingForKey, after) => (.ok (made + 1), after)
    | (.ok .advanced, after) => runFrom random clock (made + 1) cycles after

/-- Up to `cycles` steps: how many were made, the one that waits for a key included. -/
def run (random : RandomBytes) (clock : Nat → Int) (cycles : Int) (m : Machine) :
    Except Refusal Nat × Machine :=
  runFrom random clock 0 cycles.toNat m

end Machine

end ChipVm
