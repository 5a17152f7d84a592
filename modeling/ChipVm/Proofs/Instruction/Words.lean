/-
The words of each instruction: decoding finds an instruction exactly at the words whose family and
fields are those of the instruction, and none at the words of the families 8, E and F whose last
digit or low byte names no operation.
-/
import ChipVm.Instruction

namespace ChipVm

namespace AluOp

theorem ofDigit?_eq_some_iff {n : Fin 16} {op : AluOp} : ofDigit? n = some op ↔ n = op.digit := by
  revert n
  cases op <;> decide

theorem ofDigit?_eq_none_iff {n : Fin 16} :
    ofDigit? n = none ↔ n ∈ [0x8, 0x9, 0xA, 0xB, 0xC, 0xD, 0xF] := by
  revert n
  decide

end AluOp

namespace Instruction

/-- Whether a word stands for an instruction. -/
def HasWord (w : Word) : Instruction → Prop
  | .clearScreen => w.family = 0x0 ∧ w.low = 0xE0
  | .ret => w.family = 0x0 ∧ w.low = 0xEE
  | .ignored => w.family = 0x0 ∧ w.low ≠ 0xE0 ∧ w.low ≠ 0xEE
  | .jump target => w.family = 0x1 ∧ w.address = target
  | .call target => w.family = 0x2 ∧ w.address = target
  | .skipIfByte x byte => w.family = 0x3 ∧ w.x = x ∧ w.low = byte
  | .skipUnlessByte x byte => w.family = 0x4 ∧ w.x = x ∧ w.low = byte
  | .skipIfSame x y => w.family = 0x5 ∧ w.x = x ∧ w.y = y
  | .loadByte x byte => w.family = 0x6 ∧ w.x = x ∧ w.low = byte
  | .addByte x byte => w.family = 0x7 ∧ w.x = x ∧ w.low = byte
  | .alu op x y => w.family = 0x8 ∧ w.n = op.digit ∧ w.x = x ∧ w.y = y
  | .skipUnlessSame x y => w.family = 0x9 ∧ w.x = x ∧ w.y = y
  | .setIndex address => w.family = 0xA ∧ w.address = address
  | .jumpOffset address => w.family = 0xB ∧ w.address = address
  | .random x mask => w.family = 0xC ∧ w.x = x ∧ w.low = mask
  | .draw x y rows => w.family = 0xD ∧ w.x = x ∧ w.y = y ∧ w.n = rows
  | .skipIfKey x => w.family = 0xE ∧ w.low = 0x9E ∧ w.x = x
  | .skipUnlessKey x => w.family = 0xE ∧ w.low = 0xA1 ∧ w.x = x
  | .readDelay x => w.family = 0xF ∧ w.low = 0x07 ∧ w.x = x
  | .awaitKey x => w.family = 0xF ∧ w.low = 0x0A ∧ w.x = x
  | .setDelay x => w.family = 0xF ∧ w.low = 0x15 ∧ w.x = x
  | .setSound x => w.family = 0xF ∧ w.low = 0x18 ∧ w.x = x
  | .addIndex x => w.family = 0xF ∧ w.low = 0x1E ∧ w.x = x
  | .glyph x => w.family = 0xF ∧ w.low = 0x29 ∧ w.x = x
  | .decimal x => w.family = 0xF ∧ w.low = 0x33 ∧ w.x = x
  | .store x => w.family = 0xF ∧ w.low = 0x55 ∧ w.x = x
  | .fill x => w.family = 0xF ∧ w.low = 0x65 ∧ w.x = x

theorem decode_of_hasWord {w : Word} {i : Instruction} (h : i.HasWord w) : decode w = some i := by
  cases i <;> simp only [HasWord] at h <;>
    simp [decode, h, ofSystem, ofKeypad?, ofMisc?, AluOp.ofDigit?_eq_some_iff]

theorem hasWord_ofSystem {w : Word} (h : w.family = 0x0) : (ofSystem w.low).HasWord w := by
  unfold ofSystem
  split
  · exact ⟨h, ‹_›⟩
  · split
    · exact ⟨h, ‹_›⟩
    · exact ⟨h, ‹_›, ‹_›⟩

theorem hasWord_of_ofKeypad? {w : Word} {i : Instruction} (h : w.family = 0xE)
    (hi : ofKeypad? w.x w.low = some i) : i.HasWord w := by
  unfold ofKeypad? at hi
  split at hi
  · cases hi; exact ⟨h, ‹_›, rfl⟩
  · split at hi
    · cases hi; exact ⟨h, ‹_›, rfl⟩
    · cases hi

theorem hasWord_of_ofMisc? {w : Word} {i : Instruction} (h : w.family = 0xF)
    (hi : ofMisc? w.x w.low = some i) : i.HasWord w := by
  unfold ofMisc? at hi
  repeat' split at hi
  all_goals cases hi
  all_goals exact ⟨h, ‹_›, rfl⟩

theorem hasWord_of_decode {w : Word} {i : Instruction} (h : decode w = some i) : i.HasWord w := by
  unfold decode at h
  split at h
  case h_1 hf => cases h; exact hasWord_ofSystem hf
  case h_9 hf =>
    obtain ⟨op, hop, rfl⟩ := Option.map_eq_some_iff.1 h
    exact ⟨hf, AluOp.ofDigit?_eq_some_iff.1 hop, rfl, rfl⟩
  case h_15 hf => exact hasWord_of_ofKeypad? hf h
  case h_16 => exact hasWord_of_ofMisc? (by grind) h
  -- every other family has one instruction, whatever the fields hold
  all_goals
    cases h
    simp only [HasWord, and_true]
    assumption

/-- Decoding finds an instruction at its words and nowhere else. -/
theorem decode_eq_some_iff {w : Word} {i : Instruction} : decode w = some i ↔ i.HasWord w :=
  ⟨hasWord_of_decode, decode_of_hasWord⟩

theorem ofKeypad?_eq_none_iff {x : Fin 16} {low : UInt8} :
    ofKeypad? x low = none ↔ low ∉ ([0x9E, 0xA1] : List UInt8) := by
  unfold ofKeypad?
  split <;> simp_all

theorem ofMisc?_eq_none_iff {x : Fin 16} {low : UInt8} :
    ofMisc? x low = none ↔
      low ∉ ([0x07, 0x0A, 0x15, 0x18, 0x1E, 0x29, 0x33, 0x55, 0x65] : List UInt8) := by
  unfold ofMisc?
  repeat' split
  all_goals simp_all

/-- The words without an instruction. -/
theorem decode_eq_none_iff {w : Word} :
    decode w = none ↔
      w.family = 0x8 ∧ w.n ∈ ([0x8, 0x9, 0xA, 0xB, 0xC, 0xD, 0xF] : List (Fin 16)) ∨
      w.family = 0xE ∧ w.low ∉ ([0x9E, 0xA1] : List UInt8) ∨
      w.family = 0xF ∧
        w.low ∉ ([0x07, 0x0A, 0x15, 0x18, 0x1E, 0x29, 0x33, 0x55, 0x65] : List UInt8) := by
  unfold decode
  split
  case h_9 hf => simp [hf, Option.map_eq_none_iff, AluOp.ofDigit?_eq_none_iff]
  case h_15 hf => simp [hf, ofKeypad?_eq_none_iff]
  case h_16 =>
    have hf : w.family = 0xF := by grind
    simp [hf, ofMisc?_eq_none_iff]
  all_goals
    rename_i hf
    simp [hf]

end Instruction

end ChipVm
