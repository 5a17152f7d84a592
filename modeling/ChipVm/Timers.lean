/-
Two timers that count down together, at most sixty times a second. A tick goes through if a whole
interval has passed since the last one that did; the reference then moves by one interval, so that
late ticks are made up for one at a time. The clock reading is an argument.
-/
import ChipVm.Byte

namespace ChipVm

/-- The two counters and the reference of the last tick that went through. -/
structure Timers where
  delay : UInt8
  sound : UInt8
  lastTick : Option Int
  deriving DecidableEq

namespace Timers

/-- A sixtieth of a second in nanoseconds, rounded down. -/
def interval : Int := 16666666

/-- The timers at power-on and after a reset. -/
def initial : Timers := ⟨0, 0, none⟩

instance : Inhabited Timers := ⟨initial⟩

/-- The reference that a tick at a clock reading sets, if it goes through. The first one does. -/
def nextTick (lastTick : Option Int) (now : Int) : Option Int :=
  match lastTick with
  | none => some now
  | some last => if interval ≤ now - last then some (last + interval) else none

/-- A tick at a clock reading: whether it went through, and the timers after it. -/
def tick (t : Timers) (now : Int) : Bool × Timers :=
  match nextTick t.lastTick now with
  | some at' => (true, ⟨countDown t.delay, countDown t.sound, some at'⟩)
  | none => (false, t)

/-- Assigns the delay timer. -/
def setDelay (t : Timers) (v : Int) : Timers := { t with delay := lowByte v }

/-- Assigns the sound timer. -/
def setSound (t : Timers) (v : Int) : Timers := { t with sound := lowByte v }

/-- Whether the sound timer is running. -/
def soundActive (t : Timers) : Bool := 0 < t.sound

/-! ## Edits -/

/-- A change that a host may make. -/
inductive Edit where
  | tick (now : Int)
  | setDelay (v : Int)
  | setSound (v : Int)
  | reset
  deriving DecidableEq

/-- Makes a change; a tick tells whether it went through. -/
def edit (t : Timers) : Edit → Option Bool × Timers
  | .tick now => let (through, t) := t.tick now; (some through, t)
  | .setDelay v => (none, t.setDelay v)
  | .setSound v => (none, t.setSound v)
  | .reset => (none, initial)

end Timers

end ChipVm
