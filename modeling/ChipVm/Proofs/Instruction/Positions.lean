/-
Instruction words as numbers. A word is made of two bytes, whatever integers they are taken from,
or of one number in range. Its fields are its digits to base sixteen and what they make up, so that
nothing of the word is lost in them, nor in the text that shows it, in which the digits stand as
they are.
-/
import ChipVm.Proofs.Json.Tokens
import ChipVm.Word
import Mathlib.Data.Int.Bitwise

namespace ChipVm

/-! ## Numerals to base sixteen -/

namespace Digits

/-- The number that a numeral to base sixteen stands for, if there are only digits in it. -/
def ofHex? (cs : List Char) : Option Nat := (cs.mapM hexValue?).map (ofBase 16)

theorem hexValue?_upper {d : Nat} (h : d < 16) : hexValue? (upper d) = some d := by
  have hall : ∀ d < 16, hexValue? (upper d) = some d := by decide
  exact hall d h

theorem ofHex?_upper {ds : List Nat} (h : ∀ d ∈ ds, d < 16) :
    ofHex? (ds.map upper) = some (ofBase 16 ds) := by
  have hvalues : (ds.map upper).mapM hexValue? = some ds := by
    induction ds with
    | nil => rfl
    | cons d ds ih =>
      obtain ⟨hd, hds⟩ := List.forall_mem_cons.1 h
      rw [List.map_cons, List.mapM_cons, hexValue?_upper hd, ih hds]
      rfl
  rw [ofHex?, hvalues]
  rfl

theorem hexChars_natCast (width n : Nat) :
    hexChars width n =
      (List.replicate (width - (toBase 16 n).length) 0 ++ toBase 16 n).map upper := by
  have hsign : ¬(n : Int) < 0 := by omega
  simp only [hexChars, if_neg hsign, Int.natAbs_natCast, List.nil_append, List.length_nil,
    Nat.sub_zero, List.length_map, List.map_append, List.map_replicate]
  rfl

/-- A numeral that is filled up with zeros is read back. -/
theorem ofHex?_hexChars (width n : Nat) : ofHex? (hexChars width n) = some n := by
  rw [hexChars_natCast, ofHex?_upper, ofBase_replicate_zero, ofBase_toBase]
  intro d hd
  rcases List.mem_append.1 hd with hd | hd
  · rw [List.eq_of_mem_replicate hd]
    decide
  · exact lt_of_mem_toBase (by decide) hd

theorem length_hexChars {k n : Nat} (h : n < 16 ^ (k + 1)) :
    (hexChars (k + 1) n).length = k + 1 := by
  have hle := length_toBase_le k h
  rw [hexChars_natCast, List.length_map, List.length_append, List.length_replicate]
  omega

end Digits

/-! ## Bits -/

/-- Masking out some low bits behind others is dividing and taking the remainder. -/
theorem land_shiftRight (n k s : Nat) : (n &&& (2 ^ k - 1) <<< s) >>> s = n / 2 ^ s % 2 ^ k := by
  rw [Nat.shiftRight_and_distrib, Nat.shiftLeft_shiftRight, Nat.and_two_pow_sub_one_eq_mod,
    Nat.shiftRight_eq_div_pow]

/-- Masking out the low byte of an integer, a negative one in two's complement, is taking the
remainder. -/
theorem land_byte (n : Int) : Int.land n 0xFF = n % 256 := by
  cases n with
  | ofNat m =>
    show ((m &&& (2 ^ 8 - 1) : Nat) : Int) = (m : Int) % 256
    rw [Nat.and_two_pow_sub_one_eq_mod]
    omega
  | negSucc m =>
    -- The bits of a negative integer are those of its complement the other way round.
    have hbits : Nat.ldiff 0xFF m = 2 ^ 8 - (m % 2 ^ 8 + 1) := by
      apply Nat.eq_of_testBit_eq
      intro i
      rw [Nat.testBit_ldiff, Nat.testBit_two_pow_sub_succ (Nat.mod_lt _ (by decide)),
        Nat.testBit_mod_two_pow, show 0xFF = 2 ^ 8 - 1 from rfl, Nat.testBit_two_pow_sub_one]
      cases decide (i < 8) <;> simp
    show ((Nat.ldiff 0xFF m : Nat) : Int) = Int.negSucc m % 256
    rw [hbits]
    omega

namespace Word

variable {v w : Word} {n : Int}

theorem toNat_inj : v.toNat = w.toNat ↔ v = w := by
  constructor
  · intro h
    obtain ⟨a⟩ := v
    obtain ⟨b⟩ := w
    exact congrArg Word.mk (UInt16.toNat_inj.1 h)
  · rintro rfl
    rfl

/-! ## Words of numbers -/

theorem ofInt_toNat (w : Word) : ofInt w.toNat = .ok w := by
  have h := w.toNat_lt
  rw [ofInt, if_pos ⟨by omega, by omega⟩, Int.toNat_natCast, toNat, UInt16.ofNat_toNat]

/-- The numbers in range are those of words. -/
theorem ofInt_eq_ok_iff : ofInt n = .ok w ↔ n = w.toNat := by
  constructor
  · intro h
    unfold ofInt at h
    split at h
    · rename_i hn
      cases h
      rw [toNat, UInt16.toNat_ofNat']
      omega
    · cases h
  · rintro rfl
    exact ofInt_toNat w

/-- Two bytes put together make the number of a word. -/
theorem ofInt_ofInts (high low : Int) :
    ofInt (Int.lor (Int.shiftLeft (Int.land high 0xFF) 8) (Int.land low 0xFF)) =
      .ok (ofInts high low) := by
  have hlow := (lowByte low).toNat_lt
  have hword : Nat.lor ((lowByte high).toNat <<< 8) (lowByte low).toNat =
      (ofInts high low).toNat := by
    show (lowByte high).toNat <<< 8 ||| (lowByte low).toNat = _
    rw [← Nat.shiftLeft_add_eq_or_of_lt hlow, ofInts, toNat_ofBytes, Nat.shiftLeft_eq, Nat.mul_comm]
  rw [land_byte, land_byte, ← toNat_lowByte high, ← toNat_lowByte low, ofInt_eq_ok_iff, ← hword]
  rfl

theorem toNat_ofInts (high low : Int) :
    ((ofInts high low).toNat : Int) = 256 * (high % 256) + low % 256 := by
  rw [ofInts, toNat_ofBytes, ← toNat_lowByte high, ← toNat_lowByte low]
  push_cast
  rfl

/-! ## Fields -/

/-- How a word is made up of its fields. -/
structure Positional (w : Word) : Prop where
  /-- The four digits are the bits of the word, four by four. -/
  family : w.family.val = w.toNat >>> 12
  x : w.x.val = (w.toNat &&& 0x0F00) >>> 8
  y : w.y.val = (w.toNat &&& 0x00F0) >>> 4
  n : w.n.val = w.toNat &&& 0x000F
  digits : ∀ d ∈ [w.family, w.x, w.y, w.n], 0 ≤ d.val ∧ d.val ≤ 15
  /-- The address and the low byte are its last bits. -/
  address : w.address = w.toNat &&& 0x0FFF
  low : w.low.toNat = w.toNat &&& 0x00FF
  /-- Each part is a digit in front of the next smaller part. -/
  word_eq : w.toNat = 4096 * w.family.val + w.address
  address_eq : w.address = 256 * w.x.val + w.low.toNat
  low_eq : w.low.toNat = 16 * w.y.val + w.n.val

theorem positional (w : Word) : Positional w where
  family := (Nat.shiftRight_eq_div_pow _ 12).symm
  x := (land_shiftRight _ 4 8).symm
  y := (land_shiftRight _ 4 4).symm
  n := (Nat.and_two_pow_sub_one_eq_mod _ 4).symm
  digits := by
    intro d _
    exact ⟨Nat.zero_le _, Nat.le_of_lt_succ d.isLt⟩
  address := (Nat.and_two_pow_sub_one_eq_mod _ 12).symm
  low := by
    rw [toNat_low]
    exact (Nat.and_two_pow_sub_one_eq_mod _ 8).symm
  word_eq := by
    simp only [Word.family, Word.address]
    omega
  address_eq := by
    simp only [Word.address, Word.x, toNat_low]
    omega
  low_eq := by
    simp only [Word.y, Word.n, toNat_low]
    omega

theorem ofInts_halves (w : Word) : ofInts (w.toNat / 256 : Nat) (w.toNat % 256 : Nat) = w := by
  have hw := w.toNat_lt
  have hbytes := toNat_ofInts (w.toNat / 256 : Nat) (w.toNat % 256 : Nat)
  apply toNat_inj.1
  omega

/-- A word is told by its four digits. -/
theorem eq_of_digits (hfamily : v.family = w.family) (hx : v.x = w.x) (hy : v.y = w.y)
    (hn : v.n = w.n) : v = w := by
  have hv := positional v
  have hw := positional w
  apply toNat_inj.1
  rw [hv.word_eq, hv.address_eq, hv.low_eq, hfamily, hx, hy, hn, ← hw.low_eq, ← hw.address_eq,
    ← hw.word_eq]

/-! ## Text -/

theorem exists_literal (w : Word) :
    ∃ cs, w.literal = "Opcode(0x" ++ String.ofList cs ++ ")" ∧ cs.length = 4 ∧
      Digits.ofHex? cs = some w.toNat :=
  ⟨Digits.hexChars 4 w.toNat, rfl, Digits.length_hexChars w.toNat_lt, Digits.ofHex?_hexChars 4 _⟩

theorem literal_injective : Function.Injective literal := by
  intro v w h
  obtain ⟨cs, hcs, -, hv⟩ := exists_literal v
  obtain ⟨ds, hds, -, hw⟩ := exists_literal w
  rw [hcs, hds, String.append_left_inj, String.append_right_inj, String.ofList_inj] at h
  rw [h, hw] at hv
  exact toNat_inj.1 (Option.some.inj hv).symm

/-- Any two integers make a word of their low bytes, and exactly the numbers below `65536` are
words. A word is made up of its fields, digit by digit; put together from its two halves it is the
same again, and the four digits in its text are read back as its number. So neither the digits nor
the text of a word are those of another one. -/
theorem word_is_its_digits :
    (∀ high low : Int,
      ofInt (Int.lor (Int.shiftLeft (Int.land high 0xFF) 8) (Int.land low 0xFF)) =
        .ok (ofInts high low) ∧
      ((ofInts high low).toNat : Int) = 256 * (high % 256) + low % 256) ∧
    (∀ n : Int,
      (0 ≤ n ∧ n ≤ 0xFFFF → ∃ w, ofInt n = .ok w ∧ (w.toNat : Int) = n) ∧
      (¬(0 ≤ n ∧ n ≤ 0xFFFF) → ofInt n = .error ⟨n⟩)) ∧
    (∀ w : Word,
      ofInt w.toNat = .ok w ∧
      Positional w ∧
      ofInts (w.toNat / 256 : Nat) (w.toNat % 256 : Nat) = w ∧
      ∃ cs, w.literal = "Opcode(0x" ++ String.ofList cs ++ ")" ∧ cs.length = 4 ∧
        Digits.ofHex? cs = some w.toNat) ∧
    ∀ v w : Word,
      (v.family = w.family → v.x = w.x → v.y = w.y → v.n = w.n → v = w) ∧
      (v.literal = w.literal → v = w) := by
  refine ⟨?_, ?_, ?_, ?_⟩
  · intro high low
    exact ⟨ofInt_ofInts high low, toNat_ofInts high low⟩
  · intro n
    constructor
    · intro hn
      exact ⟨_, if_pos hn, (ofInt_eq_ok_iff.1 (if_pos hn)).symm⟩
    · intro hn
      exact if_neg hn
  · intro w
    exact ⟨ofInt_toNat w, positional w, ofInts_halves w, exists_literal w⟩
  · intro v w
    exact ⟨eq_of_digits, fun h => literal_injective h⟩

theorem wrapped_bytes_have_the_same_digits :
    (∃ w, ofInt 0xD4A7 = .ok w ∧ (w.toNat : Int) = 0xD4A7) ∧
    ofInt 0x10000 = .error ⟨0x10000⟩ ∧
    ofInt (-1) = .error ⟨-1⟩ ∧
    ofInts (-44) 0x1A7 = ofInts 0xD4 0xA7 ∧
    (ofInts (-44) 0x1A7).literal = "Opcode(0xD4A7)" := by
  obtain ⟨-, hrange, -, hsame⟩ := word_is_its_digits
  obtain ⟨hdigits, -⟩ := hsame (ofInts (-44) 0x1A7) (ofInts 0xD4 0xA7)
  refine ⟨(hrange _).1 (by decide), (hrange _).2 (by decide), (hrange _).2 (by decide),
    hdigits (by decide) (by decide) (by decide) (by decide), ?_⟩
  decide +kernel

end Word

end ChipVm
