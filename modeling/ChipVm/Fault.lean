/-
What can go wrong in the machine, and the text of each fault. Numbers to base sixteen are upper-case
and filled with zeros, the minus sign counted.
-/
import ChipVm.Digits
import ChipVm.Text.Basic

namespace ChipVm

/-- Why an address is refused. -/
inductive AddressReason where
  | outOfBounds
  | readOnlyGlyphs
  | fetchPastEnd
  | stated (reason : Text)
  deriving DecidableEq

/-- A fault of the machine. -/
inductive Fault where
  | programTooLarge (length limit : Int)
  | invalidWord (word : Int) (pc : Option Int)
  | invalidAddress (address : Int) (reason : AddressReason)
  | invalidRegister (index : Int)
  | stackOverflow (pc : Int)
  | stackUnderflow (pc : Int)
  deriving DecidableEq

namespace AddressReason

/-- The reason in words. -/
def text : AddressReason → Text
  | .outOfBounds => "out of bounds"
  | .readOnlyGlyphs => "glyph table is read-only"
  | .fetchPastEnd => "instruction fetch past end of memory"
  | .stated reason => reason

end AddressReason

namespace Fault

/-- The text of a fault. -/
def message : Fault → Text
  | .programTooLarge length limit =>
    ("Invalid program size " ++ Digits.decimal length ++ " (max " ++ Digits.decimal limit ++
      " bytes)" : String)
  | .invalidWord word none => ("Invalid opcode: 0x" ++ Digits.hex 4 word : String)
  | .invalidWord word (some pc) =>
    ("Invalid opcode: 0x" ++ Digits.hex 4 word ++ " at 0x" ++ Digits.hex 3 pc : String)
  | .invalidAddress address reason =>
    ("Invalid memory address: 0x" ++ Digits.hex 0 address ++ " (" : String) ++ reason.text ++ ")"
  | .invalidRegister index => ("Invalid register: V" ++ Digits.hex 0 index : String)
  | .stackOverflow pc => ("Stack overflow at 0x" ++ Digits.hex 3 pc : String)
  | .stackUnderflow pc => ("Stack underflow at 0x" ++ Digits.hex 3 pc : String)

end Fault

end ChipVm
