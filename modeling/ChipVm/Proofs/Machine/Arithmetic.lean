/-
Arithmetic on registers. The result and the flag of an operation together are exact: the flag is the
carry of a sum, the absence of a borrow or the bit shifted out, all of the operands as they were
before the step. The operands may be one register, or the flag register; if the result were to go
there too, the flag stands there instead.
-/
import ChipVm.Proofs.Machine.Step

namespace ChipVm

/-! ## Bytes -/

theorem toNat_flagByte (b : Bool) : (flagByte b).toNat = b.toNat := by cases b <;> rfl

theorem toNat_flagByte_decide (p : Prop) [Decidable p] :
    (flagByte p).toNat = if p then 1 else 0 := by
  rw [toNat_flagByte]
  split
  · rename_i h
    rw [decide_eq_true h, Bool.toNat_true]
  · rename_i h
    rw [decide_eq_false h, Bool.toNat_false]

theorem toNat_add_carry (a b : UInt8) :
    a.toNat + b.toNat = 256 * (flagByte (255 < a.toNat + b.toNat)).toNat + (a + b).toNat := by
  have ha := a.toNat_lt
  have hb := b.toNat_lt
  rw [toNat_flagByte_decide, UInt8.toNat_add]
  split <;> omega

theorem toNat_sub_borrow (a b : UInt8) :
    (a.toNat - b.toNat : Int) = (a - b).toNat - 256 * (1 - (flagByte (b ≤ a)).toNat) := by
  have ha := a.toNat_lt
  have hb := b.toNat_lt
  simp only [toNat_flagByte_decide, UInt8.toNat_sub, UInt8.le_iff_toNat_le]
  split <;> omega

theorem toNat_shiftRight_bit (o : UInt8) :
    o.toNat = 2 * (o >>> 1).toNat + (flagByte (o.toNat.testBit 0)).toNat := by
  have hshift : (o >>> 1).toNat = o.toNat / 2 := UInt8.toNat_shiftRight o 1
  rw [toNat_flagByte, Nat.toNat_testBit, hshift]
  omega

theorem toNat_shiftLeft_bit (o : UInt8) :
    2 * o.toNat = 256 * (flagByte (o.toNat.testBit 7)).toNat + (o <<< 1).toNat := by
  have ho := o.toNat_lt
  have hshift : (o <<< 1).toNat = o.toNat <<< 1 % 256 := UInt8.toNat_shiftLeft o 1
  rw [toNat_flagByte, Nat.toNat_testBit, hshift, Nat.shiftLeft_eq]
  omega

namespace AluOp

variable {op : AluOp} {a b o : UInt8}

/-- Whether an operation writes the flag register. -/
def SetsFlag : AluOp → Prop
  | .move | .or | .and | .xor => False
  | .add | .sub | .subFrom | .shiftRight | .shiftLeft => True

/-- What the result and the flag are, as numbers, for the registers `a` and `b` and the operand `o`
of the shifts. A difference that needs a borrow has the flag zero. -/
def Exact (a b o result flag : Nat) : AluOp → Prop
  | .move => result = b
  | .or => result = a ||| b
  | .and => result = a &&& b
  | .xor => result = a ^^^ b
  | .add => a + b = 256 * flag + result
  | .sub => (a - b : Int) = result - 256 * (1 - flag)
  | .subFrom => (b - a : Int) = result - 256 * (1 - flag)
  | .shiftRight => o = 2 * result + flag
  | .shiftLeft => 2 * o = 256 * flag + result

theorem exact_of_flag? {flag : Bool} (h : op.flag? a b o = some flag) :
    op.SetsFlag ∧
      op.Exact a.toNat b.toNat o.toNat (op.result a b o).toNat (flagByte flag).toNat := by
  cases op with
  | move | or | and | xor => cases h
  | add => cases h; exact ⟨trivial, toNat_add_carry a b⟩
  | sub => cases h; exact ⟨trivial, toNat_sub_borrow a b⟩
  | subFrom => cases h; exact ⟨trivial, toNat_sub_borrow b a⟩
  | shiftRight => cases h; exact ⟨trivial, toNat_shiftRight_bit o⟩
  | shiftLeft => cases h; exact ⟨trivial, toNat_shiftLeft_bit o⟩

theorem exact_of_flag?_eq_none (h : op.flag? a b o = none) (flag : Nat) :
    ¬op.SetsFlag ∧ op.Exact a.toNat b.toNat o.toNat (op.result a b o).toNat flag := by
  cases op with
  | move => exact ⟨id, rfl⟩
  | or => exact ⟨id, UInt8.toNat_or a b⟩
  | and => exact ⟨id, UInt8.toNat_and a b⟩
  | xor => exact ⟨id, UInt8.toNat_xor a b⟩
  | add | sub | subFrom | shiftRight | shiftLeft => cases h

end AluOp

/-! ## Registers -/

/-- The register that a shift takes its operand from. -/
def ShiftOperand.register (x y : Fin 16) : ShiftOperand → Fin 16
  | .vx => x
  | .vy => y

namespace Registers

/-- What an operation on two registers leaves behind: the exact result in the first of them, and the
flag in the flag register, the result giving way to it there. -/
structure Calculated (op : AluOp) (shift : ShiftOperand) (x y : Fin 16) (before after : Registers) :
    Prop where
  exact : ∃ result ≤ 255,
    op.Exact (before.get x).toNat (before.get y).toNat (before.get (shift.register x y)).toNat
      result (after.get flagIndex).toNat ∧
    ((op.SetsFlag → x ≠ flagIndex) → (after.get x).toNat = result)
  flag : op.SetsFlag → (after.get flagIndex).toNat = 0 ∨ (after.get flagIndex).toNat = 1
  others : ∀ z ≠ x, (op.SetsFlag → z ≠ flagIndex) → after.get z = before.get z

variable {r : Registers} {shift : ShiftOperand} {op : AluOp} {x y : Fin 16}

theorem alu_of_flag? {flag : Bool}
    (h : op.flag? (r.get x) (r.get y) (r.get (shift.register x y)) = some flag) :
    r.alu shift op x y =
      (r.set x (op.result (r.get x) (r.get y) (r.get (shift.register x y)))).setFlag
        (flagByte flag) := by
  cases shift <;> simp only [alu, ShiftOperand.register] at h ⊢ <;> rw [h]

theorem alu_of_flag?_eq_none
    (h : op.flag? (r.get x) (r.get y) (r.get (shift.register x y)) = none) :
    r.alu shift op x y =
      r.set x (op.result (r.get x) (r.get y) (r.get (shift.register x y))) := by
  cases shift <;> simp only [alu, ShiftOperand.register] at h ⊢ <;> rw [h]

theorem calculated_alu (r : Registers) (shift : ShiftOperand) (op : AluOp) (x y : Fin 16) :
    Calculated op shift x y r (r.alu shift op x y) := by
  cases hf : op.flag? (r.get x) (r.get y) (r.get (shift.register x y)) with
  | some flag =>
    obtain ⟨hsets, hexact⟩ := AluOp.exact_of_flag? hf
    rw [alu_of_flag? hf]
    generalize op.result (r.get x) (r.get y) (r.get (shift.register x y)) = v at hexact ⊢
    -- The flag is written last, so the result is there unless it goes to the flag register.
    have hflag : ((r.set x v).setFlag (flagByte flag)).get flagIndex = flagByte flag :=
      (get_setFlag _ _ _).trans (if_pos rfl)
    refine ⟨⟨v.toNat, Nat.le_of_lt_succ v.toNat_lt, ?_, fun hx => ?_⟩, fun _ => ?_,
      fun z hzx hz => ?_⟩
    · rw [hflag]
      exact hexact
    · rw [get_setFlag, if_neg (hx hsets), get_set, if_pos rfl]
    · rw [hflag]
      cases flag
      · exact .inl rfl
      · exact .inr rfl
    · rw [get_setFlag, if_neg (hz hsets), get_set, if_neg hzx.symm]
  | none =>
    obtain ⟨hkeeps, hexact⟩ := AluOp.exact_of_flag?_eq_none hf
      ((r.alu shift op x y).get flagIndex).toNat
    rw [alu_of_flag?_eq_none hf] at hexact ⊢
    generalize op.result (r.get x) (r.get y) (r.get (shift.register x y)) = v at hexact ⊢
    refine ⟨⟨v.toNat, Nat.le_of_lt_succ v.toNat_lt, hexact, fun _ => ?_⟩,
      fun hsets => absurd hsets hkeeps, fun z hz _ => ?_⟩
    · rw [get_set, if_pos rfl]
    · rw [get_set, if_neg hz.symm]

end Registers

namespace Machine

/-! ## Instructions -/

/-- The arithmetic instructions go through. An operation on two registers leaves its exact result
and flag behind, and adding a byte leaves the sum without its carry; no other register changes, not
even the flag register unless an operation with a flag writes it. -/
theorem arithmetic_is_exact (random : RandomBytes) (now : Int) {m : Machine} (hp : m.pc ≤ 4094) :
    (∀ op : AluOp, m.word.family = 0x8 → m.word.n = op.digit →
      ∃ after, m.step random now = (.ok .advanced, after) ∧
        Registers.Calculated op m.config.shift m.word.x m.word.y m.registers after.registers) ∧
    (m.word.family = 0x7 →
      ∃ after, m.step random now = (.ok .advanced, after) ∧
        (after.registers.get m.word.x).toNat =
          ((m.registers.get m.word.x).toNat + m.word.low.toNat) % 256 ∧
        ∀ z ≠ m.word.x, after.registers.get z = m.registers.get z) := by
  constructor
  · intro op hfamily hn
    have hf : m.fetch = .ok (.alu op m.word.x m.word.y) :=
      fetch_eq_ok_iff.2 ⟨hp, hfamily, hn, rfl, rfl⟩
    exact ⟨_, step_of_execute hf rfl, m.registers.calculated_alu _ _ _ _⟩
  · intro hfamily
    have hf : m.fetch = .ok (.addByte m.word.x m.word.low) :=
      fetch_eq_ok_iff.2 ⟨hp, hfamily, rfl, rfl⟩
    have hget (z : Fin 16) := m.registers.get_set m.word.x z
      (m.registers.get m.word.x + m.word.low)
    refine ⟨_, step_of_execute hf rfl, ?_, fun z hz => ?_⟩
    · exact (congrArg UInt8.toNat ((hget m.word.x).trans (if_pos rfl))).trans
        (UInt8.toNat_add _ _)
    · exact (hget z).trans (if_neg hz.symm)

/-- A machine about to add `V1` to the flag register, and then a byte. -/
def addsToFlag : Machine :=
  { new {} with
    memory := Memory.initial.overlay 0x200 #[0x8F, 0x14, 0x7F, 0xFF] (by decide)
    registers := (Registers.zero.set 0xF 200).set 1 100 }

theorem carry_replaces_sum :
    ∃ added after, addsToFlag.step (fun _ => 0) 0 = (.ok .advanced, added) ∧
      Registers.Calculated .add .vx 0xF 1 addsToFlag.registers added.registers ∧
      (added.registers.get 0xF).toNat = 1 ∧ added.step (fun _ => 0) 0 = (.ok .advanced, after) ∧
      (after.registers.get 0xF).toNat = 0 := by
  have hm : ∃ fits, addsToFlag.memory =
      Memory.initial.overlay 0x200 #[0x8F, 0x14, 0x7F, 0xFF] fits := ⟨by decide, rfl⟩
  have hf : addsToFlag.fetch = .ok (.alu .add 0xF 1) :=
    fetch_of_overlay (p := 0x200) hm rfl (by decide) rfl rfl ⟨rfl, rfl, rfl, rfl⟩
  obtain ⟨hp, hfamily, hn, hx, hy⟩ := fetch_eq_ok_iff.1 hf
  obtain ⟨added, hs, hcalculated⟩ := (arithmetic_is_exact (fun _ => 0) 0 hp).1 .add hfamily hn
  rw [hx, hy] at hcalculated
  -- Two hundred and one hundred make a carry and forty-four, of which the carry stays.
  have hcarry : (added.registers.get 0xF).toNat = 1 := by
    obtain ⟨result, hle, hsum, -⟩ := hcalculated.exact
    have hsum' : 200 + 100 = 256 * (added.registers.get 0xF).toNat + result := hsum
    have hflag : (added.registers.get 0xF).toNat = 0 ∨ (added.registers.get 0xF).toNat = 1 :=
      hcalculated.flag trivial
    omega
  have hadded : added = _ := congrArg Prod.snd (hs.symm.trans (step_of_execute hf rfl))
  have hf' : added.fetch = .ok (.addByte 0xF 0xFF) :=
    fetch_of_overlay (p := 0x202) (by rw [hadded]; exact hm) (by rw [hadded]; rfl) (by decide) rfl
      rfl ⟨rfl, rfl, rfl⟩
  obtain ⟨hp', hfamily', hx', hlow'⟩ := fetch_eq_ok_iff.1 hf'
  obtain ⟨after, hs', hsum, -⟩ := (arithmetic_is_exact (fun _ => 0) 0 hp').2 hfamily'
  rw [hx', hlow', hcarry] at hsum
  exact ⟨added, after, hs, hcalculated, hcarry, hs', hsum⟩

end Machine

end ChipVm
