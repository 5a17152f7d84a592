/-
The instructions that words stand for. A word with no instruction is decoded to none; the machine
then stops with a fault.
-/
import ChipVm.Word

namespace ChipVm

/-- The operations of `8xy?`. -/
inductive AluOp where
  | move
  | or
  | and
  | xor
  | add
  | sub
  | subFrom
  | shiftRight
  | shiftLeft
  deriving DecidableEq

/-- An instruction with its operands. -/
inductive Instruction where
  /-- All pixels off (`0?E0`). -/
  | clearScreen
  /-- Back to the newest return address (`0?EE`). -/
  | ret
  /-- Nothing, for any other word of family zero. -/
  | ignored
  /-- On at the address (`1nnn`). -/
  | jump (target : Nat)
  /-- On at the address, coming back behind this word (`2nnn`). -/
  | call (target : Nat)
  /-- Skips the next word if the register holds the byte (`3xkk`). -/
  | skipIfByte (x : Fin 16) (byte : UInt8)
  /-- Skips the next word unless the register holds the byte (`4xkk`). -/
  | skipUnlessByte (x : Fin 16) (byte : UInt8)
  /-- Skips the next word if the registers agree (`5xy?`). -/
  | skipIfSame (x y : Fin 16)
  /-- Skips the next word unless the registers agree (`9xy?`). -/
  | skipUnlessSame (x y : Fin 16)
  /-- The byte into the register (`6xkk`). -/
  | loadByte (x : Fin 16) (byte : UInt8)
  /-- Adds the byte, without a flag (`7xkk`). -/
  | addByte (x : Fin 16) (byte : UInt8)
  /-- An operation on two registers (`8xy?`). -/
  | alu (op : AluOp) (x y : Fin 16)
  /-- The address into the index (`Annn`). -/
  | setIndex (address : Nat)
  /-- On at the address plus `V0` (`Bnnn`). -/
  | jumpOffset (address : Nat)
  /-- A random byte, masked, into the register (`Cxkk`). -/
  | random (x : Fin 16) (mask : UInt8)
  /-- Draws the bytes at the index (`Dxyn`). -/
  | draw (x y rows : Fin 16)
  /-- Takes the key and skips the next word if it is the one in the register (`Ex9E`). -/
  | skipIfKey (x : Fin 16)
  /-- Takes the key and skips the next word unless it is the one in the register (`ExA1`). -/
  | skipUnlessKey (x : Fin 16)
  /-- The delay timer into the register (`Fx07`). -/
  | readDelay (x : Fin 16)
  /-- Takes the key into the register, or waits for one (`Fx0A`). -/
  | awaitKey (x : Fin 16)
  /-- The register into the delay timer (`Fx15`). -/
  | setDelay (x : Fin 16)
  /-- The register into the sound timer (`Fx18`). -/
  | setSound (x : Fin 16)
  /-- Adds the register to the index (`Fx1E`). -/
  | addIndex (x : Fin 16)
  /-- The glyph of the register into the index (`Fx29`). -/
  | glyph (x : Fin 16)
  /-- The three decimal digits of the register at the index (`Fx33`). -/
  | decimal (x : Fin 16)
  /-- The registers up to this one at the index (`Fx55`). -/
  | store (x : Fin 16)
  /-- The registers up to this one from the index (`Fx65`). -/
  | fill (x : Fin 16)
  deriving DecidableEq

namespace AluOp

/-- The last digit of the words of an operation. -/
def digit : AluOp → Fin 16
  | .move => 0x0
  | .or => 0x1
  | .and => 0x2
  | .xor => 0x3
  | .add => 0x4
  | .sub => 0x5
  | .shiftRight => 0x6
  | .subFrom => 0x7
  | .shiftLeft => 0xE

/-- The operation with a last digit. -/
def ofDigit? (n : Fin 16) : Option AluOp :=
  match n with
  | 0 => some .move
  | 1 => some .or
  | 2 => some .and
  | 3 => some .xor
  | 4 => some .add
  | 5 => some .sub
  | 6 => some .shiftRight
  | 7 => some .subFrom
  | 0xE => some .shiftLeft
  | _ => none

end AluOp

namespace Instruction

/-- The instruction of family `0`; the middle digit does not matter. -/
def ofSystem (low : UInt8) : Instruction :=
  if low = 0xE0 then .clearScreen else if low = 0xEE then .ret else .ignored

/-- The instruction of family `E`. -/
def ofKeypad? (x : Fin 16) (low : UInt8) : Option Instruction :=
  if low = 0x9E then some (.skipIfKey x) else if low = 0xA1 then some (.skipUnlessKey x) else none

/-- The instruction of family `F`. -/
def ofMisc? (x : Fin 16) (low : UInt8) : Option Instruction :=
  if low = 0x07 then some (.readDelay x)
  else if low = 0x0A then some (.awaitKey x)
  else if low = 0x15 then some (.setDelay x)
  else if low = 0x18 then some (.setSound x)
  else if low = 0x1E then some (.addIndex x)
  else if low = 0x29 then some (.glyph x)
  else if low = 0x33 then some (.decimal x)
  else if low = 0x55 then some (.store x)
  else if low = 0x65 then some (.fill x)
  else none

/-- The instruction that a word stands for; the last case is family `F`. -/
def decode (w : Word) : Option Instruction :=
  match w.family with
  | 0x0 => some (ofSystem w.low)
  | 0x1 => some (.jump w.address)
  | 0x2 => some (.call w.address)
  | 0x3 => some (.skipIfByte w.x w.low)
  | 0x4 => some (.skipUnlessByte w.x w.low)
  | 0x5 => some (.skipIfSame w.x w.y)
  | 0x6 => some (.loadByte w.x w.low)
  | 0x7 => some (.addByte w.x w.low)
  | 0x8 => (AluOp.ofDigit? w.n).map fun op => .alu op w.x w.y
  | 0x9 => some (.skipUnlessSame w.x w.y)
  | 0xA => some (.setIndex w.address)
  | 0xB => some (.jumpOffset w.address)
  | 0xC => some (.random w.x w.low)
  | 0xD => some (.draw w.x w.y w.n)
  | 0xE => ofKeypad? w.x w.low
  | _ => ofMisc? w.x w.low

end Instruction

end ChipVm
