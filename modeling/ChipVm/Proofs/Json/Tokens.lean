/-
Reading back the parts of a written JSON text: the blanks between them, integers and strings. An
integer is read up to what no digit, point or exponent begins. A string is read as it was written
unless it names both halves of a surrogate pair on their own, one right after the other: written,
they are the pair.
-/
import ChipVm.Json.Reader
import ChipVm.Json.Writer
import Mathlib.Algebra.Ring.Nat
import Mathlib.Data.List.Chain

namespace ChipVm

/-! ## Numerals -/

namespace Digits

theorem toBase_of_lt {base n : Nat} (h : n < base) : toBase base n = [n] := by
  rw [toBase, if_pos (.inr h)]

theorem length_toBase_le {base n : Nat} (k : Nat) (h : n < base ^ (k + 1)) :
    (toBase base n).length ≤ k + 1 := by
  induction k generalizing n with
  | zero =>
    rw [toBase_of_lt (by simpa using h)]
    exact Nat.le_refl 1
  | succ k ih =>
    rw [toBase]
    split
    · simp
    · have hdiv : n / base < base ^ (k + 1) := Nat.div_lt_of_lt_mul (by rwa [← Nat.pow_succ'])
      simpa using ih hdiv

/-- Only zero has a numeral that begins with the digit zero. -/
theorem eq_nil_of_toBase {base n : Nat} {ds : List Nat} (h : toBase base n = 0 :: ds) :
    ds = [] := by
  fun_induction toBase base n generalizing ds with
  | case1 n hn => exact (List.cons.inj h).2.symm
  | case2 n hn ih =>
    cases hd : toBase base (n / base) with
    | nil => exact absurd hd (toBase_ne_nil base (n / base))
    | cons d rest =>
      rw [hd, List.cons_append] at h
      obtain ⟨rfl, -⟩ := List.cons.inj h
      obtain rfl := ih hd
      -- The numeral without its last digit is that of zero, so that it would not be there.
      have hzero : n / base = 0 := by
        rw [← ofBase_toBase base (n / base), hd]
        rfl
      have := Nat.div_eq_zero_iff.1 hzero
      omega

theorem ofBase_replicate_zero (base k : Nat) (ds : List Nat) :
    ofBase base (List.replicate k 0 ++ ds) = ofBase base ds := by
  induction k with
  | zero => rfl
  | succ k ih =>
    rw [List.replicate_succ, List.cons_append, ← ih]
    simp [ofBase]

theorem toNat_lower {d : Nat} (h : d < 10) : (lower d).toNat = 48 + d := by
  have hall : ∀ d < 10, (lower d).toNat = 48 + d := by decide
  exact hall d h

theorem hexValue?_lower {d : Nat} (h : d < 16) : hexValue? (lower d) = some d := by
  have hall : ∀ d < 16, hexValue? (lower d) = some d := by decide
  exact hall d h

end Digits

namespace Json

open Digits

/-! ## Blanks -/

theorem skipSpace_cons {c : Char} (h : isSpace c = false) (cs : List Char) :
    skipSpace (c :: cs) = c :: cs := by
  rw [skipSpace, List.dropWhile_cons_of_neg (by simp [h])]

theorem skipSpace_breakAt (l : Layout) (depth : Nat) (cs : List Char) :
    skipSpace (l.breakAt depth ++ cs) = skipSpace cs := by
  refine List.dropWhile_append_of_pos fun c hc => ?_
  cases l with
  | line => cases hc
  | indented width =>
    rcases List.mem_cons.1 hc with rfl | hc
    · rfl
    · rw [List.eq_of_mem_replicate hc]
      rfl

theorem skipSpace_colon (l : Layout) (cs : List Char) :
    ∃ rest, skipSpace (l.colon ++ cs) = ':' :: rest ∧ skipSpace rest = skipSpace cs := by
  cases l with
  | line => exact ⟨cs, rfl, rfl⟩
  | indented width => exact ⟨' ' :: cs, rfl, rfl⟩

/-! ## Numbers -/

/-- Whether an integer ends before a text. -/
def Stops : List Char → Prop
  | [] => True
  | c :: _ => isDigit c = false ∧ c ≠ '.' ∧ c ≠ 'e' ∧ c ≠ 'E'

variable {rest : List Char}

theorem isDigit_lower {d : Nat} (h : d < 10) : isDigit (lower d) = true := by
  rw [isDigit, toNat_lower h]
  simp
  omega

theorem isDigit_of_mem {n : Nat} {c : Char} (hc : c ∈ (toBase 10 n).map lower) :
    isDigit c = true := by
  obtain ⟨d, hd, rfl⟩ := List.mem_map.1 hc
  exact isDigit_lower (lt_of_mem_toBase (by decide) hd)

theorem digitValues_lower (n : Nat) : digitValues ((toBase 10 n).map lower) = toBase 10 n := by
  rw [digitValues, List.map_map]
  refine (List.map_congr_left fun d hd => ?_).trans (List.map_id _)
  rw [Function.comp_apply, toNat_lower (lt_of_mem_toBase (by decide) hd), Nat.add_sub_cancel_left]
  rfl

theorem takeWhile_of_stops (h : Stops rest) : rest.takeWhile isDigit = [] := by
  cases rest with
  | nil => rfl
  | cons c cs => exact List.takeWhile_cons_of_neg (by simp [h.1])

theorem fractionDigits_of_stops (h : Stops rest) : fractionDigits rest = [] := by
  unfold fractionDigits
  split
  · exact absurd rfl h.2.1
  · rfl

theorem exponent?_of_stops (h : Stops rest) : exponent? rest = none := by
  cases rest with
  | nil => rfl
  | cons c cs =>
    unfold exponent?
    exact if_neg fun he => he.elim h.2.2.1 h.2.2.2

theorem wholeDigits_lower (n : Nat) (h : Stops rest) :
    wholeDigits ((toBase 10 n).map lower ++ rest) = (toBase 10 n).map lower := by
  have hall : ((toBase 10 n).map lower ++ rest).takeWhile isDigit = (toBase 10 n).map lower := by
    rw [List.takeWhile_append_of_pos fun c hc => isDigit_of_mem hc, takeWhile_of_stops h, List.append_nil]
  unfold wholeDigits
  split
  · rename_i cs hcs
    cases hd : toBase 10 n with
    | nil => exact absurd hd (toBase_ne_nil 10 n)
    | cons d ds =>
      rw [hd, List.map_cons, List.cons_append] at hcs
      have hzero : d = 0 := by
        have hlt : d < 10 := lt_of_mem_toBase (n := n) (by decide) (hd ▸ List.mem_cons_self)
        have := toNat_lower hlt
        rw [(List.cons.inj hcs).1] at this
        have hchar : '0'.toNat = 48 := rfl
        omega
      subst hzero
      rw [eq_nil_of_toBase hd]
      rfl
  · exact hall

theorem number_toBase {n : Nat} (hn : (toBase 10 n).length ≤ Numeral.maxDigits) (h : Stops rest) :
    number ((toBase 10 n).map lower ++ rest) = .ok (.int n, rest) ∧
      number ('-' :: ((toBase 10 n).map lower ++ rest)) = .ok (.int (-n), rest) := by
  have hne : (toBase 10 n).map lower ≠ [] := by simpa using toBase_ne_nil 10 n
  have hdrop : ((toBase 10 n).map lower ++ rest).drop ((toBase 10 n).map lower).length = rest :=
    List.drop_left
  have hlong : ¬Numeral.maxDigits < ((toBase 10 n).map lower).length := by
    simpa using hn
  constructor
  · unfold number
    split
    rename_i negative unsigned hsplit
    split at hsplit
    · -- The sign is no digit.
      rename_i cs hcs
      have hminus : '-' ∈ (toBase 10 n).map lower := by
        cases hd : (toBase 10 n).map lower with
        | nil => exact absurd hd hne
        | cons c ds =>
          rw [hd, List.cons_append] at hcs
          exact (List.cons.inj hcs).1 ▸ List.mem_cons_self
      exact absurd (isDigit_of_mem hminus) (by decide)
    · cases hsplit
      simp only [wholeDigits_lower n h, hdrop, fractionDigits_of_stops h, exponent?_of_stops h,
        if_neg hne, if_neg hlong, if_pos, digitValues_lower, ofBase_toBase]
      rfl
  · unfold number
    simp only [wholeDigits_lower n h, hdrop, fractionDigits_of_stops h, exponent?_of_stops h,
      if_neg hne, if_neg hlong, if_pos, digitValues_lower, ofBase_toBase]

theorem number_decimalChars {n : Int} (hn : (toBase 10 n.natAbs).length ≤ Numeral.maxDigits)
    (h : Stops rest) : number (decimalChars n ++ rest) = .ok (.int n, rest) := by
  obtain ⟨hpositive, hnegative⟩ := number_toBase hn h
  rw [decimalChars]
  split
  · have habs : -(n.natAbs : Int) = n := by omega
    rwa [habs] at hnegative
  · have habs : (n.natAbs : Int) = n := by omega
    rwa [habs] at hpositive

end Json

/-! ## Strings -/

namespace CodePoint

/-- The units of sixteen bits as which a code point is written: itself, or beyond sixteen bits the two
halves of a surrogate pair. -/
def units (p : CodePoint) : List CodePoint :=
  if p.val < 0x10000 then [p]
  else
    [⟨0xD800 + (p.val - 0x10000) / 0x400, by have := p.isLt; omega⟩,
      ⟨0xDC00 + (p.val - 0x10000) % 0x400, by omega⟩]

theorem units_of_lt {p : CodePoint} (h : p.val < 0x10000) : p.units = [p] := if_pos h

theorem units_of_le {p : CodePoint} (h : 0x10000 ≤ p.val) :
    ∃ high low : CodePoint, p.units = [high, low] ∧
      high.val = 0xD800 + (p.val - 0x10000) / 0x400 ∧
      low.val = 0xDC00 + (p.val - 0x10000) % 0x400 :=
  ⟨_, _, if_neg (Nat.not_lt.2 h), rfl, rfl⟩

theorem isHighSurrogate_ofChar (c : Char) : (ofChar c).isHighSurrogate = false := by
  have hvalid : c.toNat < 0xD800 ∨ 0xDFFF < c.toNat ∧ c.toNat < 0x110000 := c.valid
  have hval : (ofChar c).val = c.toNat := rfl
  refine Bool.eq_false_iff.2 fun h => ?_
  simp only [isHighSurrogate, Bool.and_eq_true, decide_eq_true_eq] at h
  omega

end CodePoint

namespace Text

/-- Whether no two neighbours are the halves of a surrogate pair. -/
def Unpaired (t : Text) : Prop :=
  t.points.IsChain fun a b => ¬(a.isHighSurrogate = true ∧ b.isLowSurrogate = true)

theorem unpaired_ofString (s : String) : (s : Text).Unpaired := by
  unfold Unpaired ofString ofChars
  rw [List.isChain_map, List.isChain_iff_getElem]
  intro i _
  simp [CodePoint.isHighSurrogate_ofChar]

end Text

namespace Json

open Digits

theorem unit?_lower {a b c d : Nat} (ha : a < 16) (hb : b < 16) (hc : c < 16) (hd : d < 16)
    {n : CodePoint} (hn : ofBase 16 [a, b, c, d] = n.val) :
    unit? (lower a) (lower b) (lower c) (lower d) = some n := by
  simp only [unit?, hexValue?_lower ha, hexValue?_lower hb, hexValue?_lower hc, hexValue?_lower hd]
  simp [hn]

theorem stringPoints_unitEscape (n : CodePoint) (h : n.val < 0x10000) (cs : List Char) :
    stringPoints (unitEscape n.val ++ cs) =
      (stringPoints cs).map fun r => (n :: r.1, r.2) := by
  obtain ⟨ds, hds⟩ : ∃ ds, List.replicate (4 - (toBase 16 n.val).length) 0 ++ toBase 16 n.val = ds :=
    ⟨_, rfl⟩
  have hchars : unitEscape n.val = '\\' :: 'u' :: ds.map lower := by
    rw [unitEscape, ← hds, List.map_append, List.map_replicate, List.length_map]
    rfl
  have hlength : ds.length = 4 := by
    have hunit : n.val < 16 ^ (3 + 1) := h
    have := length_toBase_le 3 hunit
    rw [← hds, List.length_append, List.length_replicate]
    omega
  have hvalue : ofBase 16 ds = n.val := by rw [← hds, ofBase_replicate_zero, ofBase_toBase]
  have hlt : ∀ d ∈ ds, d < 16 := by
    intro d hd
    rw [← hds, List.mem_append, List.mem_replicate] at hd
    rcases hd with ⟨-, rfl⟩ | hd
    · decide
    · exact lt_of_mem_toBase (by decide) hd
  match ds, hlength with
  | [a, b, c, d], _ =>
    have hunit := unit?_lower (hlt a (by simp)) (hlt b (by simp)) (hlt c (by simp))
      (hlt d (by simp)) hvalue
    simp only [hchars, List.map_cons, List.map_nil, List.cons_append, List.nil_append]
    rw [stringPoints, hunit]
    cases stringPoints cs <;> rfl

theorem stringPoints_cons {c : Char} (hquote : c ≠ '"') (hescape : c ≠ '\\')
    (hc : 0x20 ≤ c.toNat) (cs : List Char) :
    stringPoints (c :: cs) =
      (stringPoints cs).map fun r => (CodePoint.ofChar c :: r.1, r.2) := by
  rw [stringPoints, if_neg (Nat.not_lt.2 hc)]
  · cases stringPoints cs <;> rfl
  · exact hquote
  · rintro _ _ _ _ _ rfl _
    exact hescape rfl
  · rintro _ _ rfl _
    exact hescape rfl

theorem stringPoints_escaped {e c : Char} (he : e ≠ 'u') (h : escaped? e = some c)
    (cs : List Char) :
    stringPoints ('\\' :: e :: cs) =
      (stringPoints cs).map fun r => (CodePoint.ofChar c :: r.1, r.2) := by
  rw [stringPoints, h]
  · cases stringPoints cs <;> rfl
  · rintro _ _ _ _ _ rfl _
    exact he rfl

/-- The four ways in which a code point is written: as a short escape, as it is, as the escape of
its one unit, or as those of its two. -/
inductive WrittenAs (p : CodePoint) : List Char → Prop
  | escaped (e c : Char) (he : e ≠ 'u') (h : escaped? e = some c) (hlow : p.val < 0x10000)
    (hc : p = CodePoint.ofChar c) : WrittenAs p ['\\', e]
  | plain (c : Char) (hquote : c ≠ '"') (hescape : c ≠ '\\') (hle : 0x20 ≤ c.toNat)
    (hlow : p.val < 0x10000) (hc : p = CodePoint.ofChar c) : WrittenAs p [c]
  | unit (h : p.val < 0x10000) : WrittenAs p (unitEscape p.val)
  | pair (high low : CodePoint) (h : p.units = [high, low]) (hhigh : high.val < 0x10000)
    (hlow : low.val < 0x10000) : WrittenAs p (unitEscape high.val ++ unitEscape low.val)

theorem writtenAs_pointChars (p : CodePoint) : WrittenAs p (pointChars p) := by
  have hp := p.isLt
  unfold pointChars
  split
  · exact .escaped '"' '"' (by decide) rfl (by omega) (Fin.ext ‹_›)
  split
  · exact .escaped '\\' '\\' (by decide) rfl (by omega) (Fin.ext ‹_›)
  split
  · exact .escaped 'n' '\n' (by decide) rfl (by omega) (Fin.ext ‹_›)
  split
  · exact .escaped 'r' '\r' (by decide) rfl (by omega) (Fin.ext ‹_›)
  split
  · exact .escaped 't' '\t' (by decide) rfl (by omega) (Fin.ext ‹_›)
  split
  · exact .escaped 'f' '\x0c' (by decide) rfl (by omega) (Fin.ext ‹_›)
  split
  · exact .escaped 'b' '\x08' (by decide) rfl (by omega) (Fin.ext ‹_›)
  split
  · rename_i hquote hescape _ _ _ _ _ hplain
    have hvalid : p.val.isValidChar := .inl (by omega)
    have hval : (Char.ofNat p.val).toNat = p.val := by
      rw [Char.ofNat, dif_pos hvalid]
      rfl
    refine .plain _ (fun h => hquote ?_) (fun h => hescape ?_) (by omega) (by omega)
      (Fin.ext hval.symm)
    · rw [← hval, h]
      rfl
    · rw [← hval, h]
      rfl
  split
  · exact .unit ‹_›
  · rename_i hlarge
    obtain ⟨high, low, hunits, hhigh, hlow⟩ := CodePoint.units_of_le (Nat.le_of_not_lt hlarge)
    rw [← hhigh, ← hlow]
    exact .pair high low hunits (by omega) (by omega)

theorem stringPoints_of_writtenAs {p : CodePoint} {written : List Char} (h : WrittenAs p written)
    (cs : List Char) :
    stringPoints (written ++ cs) = (stringPoints cs).map fun r => (p.units ++ r.1, r.2) := by
  cases h with
  | escaped e c he h hlow hc =>
    rw [CodePoint.units_of_lt hlow, hc]
    exact stringPoints_escaped he h cs
  | plain c hquote hescape hle hlow hc =>
    rw [CodePoint.units_of_lt hlow, hc]
    exact stringPoints_cons hquote hescape hle cs
  | unit h =>
    rw [stringPoints_unitEscape p h, CodePoint.units_of_lt h]
    rfl
  | pair high low h hhigh hlow =>
    rw [List.append_assoc, stringPoints_unitEscape high hhigh, stringPoints_unitEscape low hlow, h,
      Option.map_map]
    rfl

theorem stringPoints_flatMap (ps : List CodePoint) (rest : List Char) :
    stringPoints (ps.flatMap pointChars ++ '"' :: rest) =
      some (ps.flatMap CodePoint.units, rest) := by
  induction ps with
  | nil => rw [List.flatMap_nil, List.nil_append, stringPoints, List.flatMap_nil]
  | cons p ps ih =>
    rw [List.flatMap_cons, List.append_assoc, stringPoints_of_writtenAs (writtenAs_pointChars p), ih,
      List.flatMap_cons, Option.map_some]

theorem joinPairs_cons {high : CodePoint} {ps : List CodePoint}
    (h : ∀ low ∈ ps.head?, ¬(high.isHighSurrogate = true ∧ low.isLowSurrogate = true)) :
    joinPairs (high :: ps) = high :: joinPairs ps := by
  cases ps with
  | nil => simp [joinPairs]
  | cons low rest =>
    rw [joinPairs, if_neg]
    simpa using h low

theorem eq_of_mem_head?_units {p u : CodePoint} (h : u ∈ p.units.head?)
    (hu : u.isLowSurrogate = true) : u = p := by
  have hp := p.isLt
  rcases Nat.lt_or_ge p.val 0x10000 with hlow | hlarge
  · rw [CodePoint.units_of_lt hlow] at h
    exact (Option.some.inj h).symm
  · -- The first of two units is the high one.
    obtain ⟨high, low, hunits, hhigh, -⟩ := CodePoint.units_of_le hlarge
    rw [hunits] at h
    obtain rfl := Option.some.inj h
    simp only [CodePoint.isLowSurrogate, Bool.and_eq_true, decide_eq_true_eq] at hu
    omega

/-- The two units of a code point are the halves of a pair that stands for it. -/
theorem pairPoint_units {p high low : CodePoint} (h : 0x10000 ≤ p.val)
    (hhigh : high.val = 0xD800 + (p.val - 0x10000) / 0x400)
    (hlow : low.val = 0xDC00 + (p.val - 0x10000) % 0x400) :
    high.isHighSurrogate = true ∧ low.isLowSurrogate = true ∧ pairPoint high low = p := by
  have hp := p.isLt
  refine ⟨?_, ?_, Fin.ext ?_⟩
  · simp only [CodePoint.isHighSurrogate, Bool.and_eq_true, decide_eq_true_eq]
    omega
  · simp only [CodePoint.isLowSurrogate, Bool.and_eq_true, decide_eq_true_eq]
    omega
  · simp only [pairPoint, Fin.ofNat]
    rw [Nat.mod_eq_of_lt (by omega)]
    omega

theorem joinPairs_units {ps : List CodePoint}
    (h : ps.IsChain fun a b => ¬(a.isHighSurrogate = true ∧ b.isLowSurrogate = true)) :
    joinPairs (ps.flatMap CodePoint.units) = ps := by
  induction ps with
  | nil => rfl
  | cons p ps ih =>
    have htail := ih h.tail
    rw [List.flatMap_cons]
    rcases Nat.lt_or_ge p.val 0x10000 with hlow | hlarge
    · rw [CodePoint.units_of_lt hlow, List.singleton_append, joinPairs_cons, htail]
      rintro low hmem ⟨hhigh, hlow⟩
      cases ps with
      | nil => cases hmem
      | cons q qs =>
        have hne : q.units ≠ [] := by
          unfold CodePoint.units
          split <;> simp
        rw [List.flatMap_cons, List.head?_append_of_ne_nil _ hne] at hmem
        obtain rfl := eq_of_mem_head?_units hmem hlow
        exact (List.isChain_cons_cons.1 h).1 ⟨hhigh, hlow⟩
    · obtain ⟨high, low, hunits, hhigh, hlow⟩ := CodePoint.units_of_le hlarge
      obtain ⟨hhigh, hlow, hpair⟩ := pairPoint_units hlarge hhigh hlow
      rw [hunits, List.cons_append, List.singleton_append, joinPairs, hhigh, hlow, hpair, htail]
      rfl

/-- A string is read up to its closing quote as it was written. -/
theorem string_flatMap {t : Text} (h : t.Unpaired) (rest : List Char) :
    string (t.points.flatMap pointChars ++ '"' :: rest) = .ok (t, rest) := by
  rw [string, stringPoints_flatMap]
  simp only [joinPairs_units h]

end Json

end ChipVm
