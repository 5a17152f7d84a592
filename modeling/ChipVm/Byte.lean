/-
Bytes: an integer of any size and sign is stored as its low eight bits, and a byte counts down to
zero and stays there. Registers and keys are numbered by half bytes, which no integer wraps around
to.
-/
namespace ChipVm

/-- The low eight bits of an integer, in two's complement for a negative one. -/
def lowByte (n : Int) : UInt8 := UInt8.ofNat (n % 256).toNat

theorem toNat_lowByte (n : Int) : ((lowByte n).toNat : Int) = n % 256 := by
  have h0 := Int.emod_nonneg n (show (256 : Int) ≠ 0 by decide)
  have h1 := Int.emod_lt_of_pos n (show (0 : Int) < 256 by decide)
  simp only [lowByte, UInt8.toNat_ofNat']
  omega

@[simp] theorem lowByte_toNat (b : UInt8) : lowByte b.toNat = b := by
  have h := b.toNat_lt
  apply UInt8.toNat_inj.1
  have := toNat_lowByte b.toNat
  omega

theorem lowByte_eq_zero_iff {v : Int} : lowByte v = 0 ↔ v % 256 = 0 := by
  have := toNat_lowByte v
  rw [← UInt8.toNat_inj, UInt8.toNat_zero]
  omega

/-- One less, but never below zero. -/
def countDown (b : UInt8) : UInt8 := if b = 0 then 0 else b - 1

theorem toNat_countDown (b : UInt8) : (countDown b).toNat = b.toNat - 1 := by
  unfold countDown
  split
  · subst b; rfl
  · rename_i h
    have h0 : b.toNat ≠ 0 := fun e => h (UInt8.toNat_inj.1 e)
    rw [UInt8.toNat_sub_of_le]
    · rfl
    · rw [UInt8.le_iff_toNat_le]
      exact Nat.one_le_iff_ne_zero.2 h0

-- The numerals of half bytes refer to this by its name.
instance neZero_sixteen : @NeZero Nat Zero.ofOfNat0 16 := Nat.instNeZeroSucc

/-- The half byte that an integer is, if it is one. -/
def nibble? (n : Int) : Option (Fin 16) :=
  if h : 0 ≤ n ∧ n < 16 then some ⟨n.toNat, by omega⟩ else none

theorem nibble?_of_lt {n : Nat} (h : n < 16) : nibble? n = some ⟨n, h⟩ := by
  rw [nibble?, dif_pos ⟨by omega, by omega⟩]
  simp only [Int.toNat_natCast]

theorem nibble?_eq_none_iff {n : Int} : nibble? n = none ↔ n < 0 ∨ 16 ≤ n := by
  unfold nibble?
  split <;> simp <;> omega

end ChipVm
