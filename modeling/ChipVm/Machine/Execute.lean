/-
What each instruction does: where to go on, or why it is refused, and the state it leaves behind in
either case.
-/
import ChipVm.Instruction
import ChipVm.Machine.Basic

namespace ChipVm

/-- Where a machine goes on after an instruction. -/
inductive Flow where
  /-- At the next word. -/
  | next
  /-- At the word after the next. -/
  | skip
  /-- At an address. -/
  | goto (address : Nat)
  /-- At the same word once more, as nothing has happened. -/
  | hold
  deriving DecidableEq

namespace Flow

/-- Skips the next word under a condition. -/
def skipIf (condition : Bool) : Flow := if condition then .skip else .next

/-- The address to go on at, coming from `pc`; none to wait. -/
def target? (pc : Nat) : Flow → Option Nat
  | .next => some (pc + 2)
  | .skip => some (pc + 4)
  | .goto address => some address
  | .hold => none

end Flow

namespace AluOp

/-- The byte that an operation computes from the registers `a` and `b` and the operand `o` of the
shifts. -/
def result (op : AluOp) (a b o : UInt8) : UInt8 :=
  match op with
  | .move => b
  | .or => a ||| b
  | .and => a &&& b
  | .xor => a ^^^ b
  | .add => a + b
  | .sub => a - b
  | .subFrom => b - a
  | .shiftRight => o >>> 1
  | .shiftLeft => o <<< 1

/-- The flag that an operation sets, if it sets one: a carry, the absence of a borrow, or the bit
shifted out. -/
def flag? (op : AluOp) (a b o : UInt8) : Option Bool :=
  match op with
  | .move | .or | .and | .xor => none
  | .add => some (255 < a.toNat + b.toNat)
  | .sub => some (b ≤ a)
  | .subFrom => some (a ≤ b)
  | .shiftRight => some (o.toNat.testBit 0)
  | .shiftLeft => some (o.toNat.testBit 7)

end AluOp

/-- A flag as the byte that the flag register takes. -/
def flagByte (b : Bool) : UInt8 := if b then 1 else 0

namespace Registers

/-- The registers after an operation: the result first, then the flag, which therefore stays if the
result goes to the flag register too. -/
def alu (r : Registers) (shift : ShiftOperand) (op : AluOp) (x y : Fin 16) : Registers :=
  let a := r.get x
  let b := r.get y
  let o := match shift with
    | .vx => a
    | .vy => b
  let computed := r.set x (op.result a b o)
  match op.flag? a b o with
  | some flag => computed.setFlag (flagByte flag)
  | none => computed

/-- The registers up to `x`. -/
def upTo (r : Registers) (x : Fin 16) : List UInt8 := r.cells.toList.take (x.val + 1)

end Registers

/-- The hundreds, tens and ones of a byte. -/
def decimalDigits (b : UInt8) : List UInt8 := [b / 100, b / 10 % 10, b % 10]

namespace Machine

/-- The index after a block of the registers up to `x`. -/
def indexAfterBlock (m : Machine) (x : Fin 16) : Nat :=
  match m.config.block with
  | .keep => m.index
  | .increment => (m.index + x.val + 1) % 65536

/-- Whether the pending key is the one in a register. -/
def keyMatches (m : Machine) (x : Fin 16) : Bool :=
  match m.key with
  | some key => key.digit.val == (m.registers.get x).toNat
  | none => false

/-! ## Instructions of more than one outcome -/

/-- Goes back to the newest address on the stack. -/
def ret (m : Machine) : Except Refusal Flow × Machine :=
  match m.stack.pop? with
  | none => (.error (.fault (.stackUnderflow m.pc)), m)
  | some (address, stack) => (.ok (.goto address), { m with stack := stack })

/-- Goes to an address, with the one behind the instruction on the stack. -/
def call (m : Machine) (target : Nat) : Except Refusal Flow × Machine :=
  match m.stack.push? (m.pc + 2) with
  | none => (.error (.fault (.stackOverflow m.pc)), m)
  | some stack => (.ok (.goto target), { m with stack := stack })

/-- Draws the bytes at the index and tells in the flag register whether a lit pixel went out. -/
def drawSprite (m : Machine) (x y rows : Fin 16) : Except Refusal Flow × Machine :=
  match m.memory.readBlock m.index rows.val with
  | .error f => (.error (.fault f), m)
  | .ok sprite =>
    match m.screen.draw (m.registers.get x).toNat (m.registers.get y).toNat
        (sprite.map fun b => (b.toNat : Int)) with
    | (.error e, screen) => (.error (.column e), { m with screen := screen })
    | (.ok hit, screen) =>
      (.ok .next, { m with screen := screen, registers := m.registers.setFlag (flagByte hit) })

/-- Takes the pending key into a register, and waits as long as there is none. -/
def awaitKey (m : Machine) (x : Fin 16) : Except Refusal Flow × Machine :=
  match m.key with
  | none => (.ok .hold, m)
  | some key =>
    (.ok .next, { m with
      registers := m.registers.set x (UInt8.ofNat key.digit.val), key := none })

/-- Writes the decimal digits of a register to the index. -/
def storeDecimal (m : Machine) (x : Fin 16) : Except Refusal Flow × Machine :=
  match m.memory.writeBlock m.index (decimalDigits (m.registers.get x)) with
  | .error f => (.error (.fault f), m)
  | .ok memory => (.ok .next, { m with memory := memory })

/-- Writes the registers up to `x` to the index. -/
def storeRegisters (m : Machine) (x : Fin 16) : Except Refusal Flow × Machine :=
  match m.memory.writeBlock m.index (m.registers.upTo x) with
  | .error f => (.error (.fault f), m)
  | .ok memory => (.ok .next, { m with memory := memory, index := m.indexAfterBlock x })

/-- Reads the registers up to `x` from the index. -/
def fillRegisters (m : Machine) (x : Fin 16) : Except Refusal Flow × Machine :=
  match m.memory.readBlock m.index (x.val + 1) with
  | .error f => (.error (.fault f), m)
  | .ok values =>
    match m.registers.load (values.map fun b => (b.toNat : Int)) with
    | (.error f, registers) => (.error (.fault f), { m with registers := registers })
    | (.ok (), registers) =>
      (.ok .next, { m with registers := registers, index := m.indexAfterBlock x })

/-! ## All instructions -/

/-- What an instruction does. One that is refused leaves what it did before. -/
def execute (random : RandomBytes) (m : Machine) : Instruction → Except Refusal Flow × Machine
  | .clearScreen => (.ok .next, { m with screen := .blank })
  | .ret => m.ret
  | .ignored => (.ok .next, m)
  | .jump target => (.ok (.goto target), m)
  | .call target => m.call target
  | .skipIfByte x byte => (.ok (.skipIf (m.registers.get x == byte)), m)
  | .skipUnlessByte x byte => (.ok (.skipIf (m.registers.get x != byte)), m)
  | .skipIfSame x y => (.ok (.skipIf (m.registers.get x == m.registers.get y)), m)
  | .skipUnlessSame x y => (.ok (.skipIf (m.registers.get x != m.registers.get y)), m)
  | .loadByte x byte => (.ok .next, { m with registers := m.registers.set x byte })
  | .addByte x byte =>
    (.ok .next, { m with registers := m.registers.set x (m.registers.get x + byte) })
  | .alu op x y => (.ok .next, { m with registers := m.registers.alu m.config.shift op x y })
  | .setIndex address => (.ok .next, { m with index := address })
  | .jumpOffset address => (.ok (.goto (address + (m.registers.get 0).toNat)), m)
  | .random x mask =>
    (.ok .next, { m with
      registers := m.registers.set x (random m.drawn &&& mask), drawn := m.drawn + 1 })
  | .draw x y rows => m.drawSprite x y rows
  | .skipIfKey x => (.ok (.skipIf (m.keyMatches x)), { m with key := none })
  | .skipUnlessKey x => (.ok (.skipIf (!m.keyMatches x)), { m with key := none })
  | .readDelay x => (.ok .next, { m with registers := m.registers.set x m.timers.delay })
  | .awaitKey x => m.awaitKey x
  | .setDelay x => (.ok .next, { m with timers := { m.timers with delay := m.registers.get x } })
  | .setSound x => (.ok .next, { m with timers := { m.timers with sound := m.registers.get x } })
  | .addIndex x => (.ok .next, { m with index := (m.index + (m.registers.get x).toNat) % 65536 })
  | .glyph x => (.ok .next, { m with index := (m.registers.get x).toNat * Memory.glyphSize })
  | .decimal x => m.storeDecimal x
  | .store x => m.storeRegisters x
  | .fill x => m.fillRegisters x

end Machine

end ChipVm
