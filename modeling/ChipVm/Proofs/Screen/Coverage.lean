/-
What drawing does to each pixel. A sprite covers a pixel as often as one of its bits falls on it,
around both edges and, if it is taller than the screen, row upon row. Drawing toggles each pixel as
often as it is covered, and a lit pixel goes out on the way exactly if a pixel is covered twice, or
once and was lit before.
-/
import ChipVm.Screen.Basic
import Mathlib.Algebra.BigOperators.Fin
import Mathlib.Data.Fintype.BigOperators

namespace ChipVm.Screen

/-! ## Columns -/

/-- Wrapping around at 64 bits does not matter for the column. -/
theorem columnAt_eq_iff {x : Int} {j : Fin 8} {c : Fin 64} :
    columnAt x j = c ↔ (x + j.val) % 64 = c.val := by
  have hd : (64 : Int) ∣ (0x10000000000000000 : Nat) := by decide
  rw [columnAt, column_eq_iff, ← Int.emod_emod_of_dvd _ hd, Int.bmod_emod,
    Int.emod_emod_of_dvd _ hd]

theorem columnAt_injective (x : Int) : Function.Injective (columnAt x) := by
  intro j k h
  have hj := columnAt_eq_iff.1 h
  have hk := columnAt_eq_iff.1 (rfl : columnAt x k = columnAt x k)
  have := j.isLt
  have := k.isLt
  refine Fin.ext ?_
  omega

/-- Whether a byte drawn at a column has a bit on another column. -/
def covers (x : Int) (bits : UInt8) (c : Fin 64) : Bool :=
  (List.finRange 8).any fun j => columnAt x j == c && bitAt bits j

theorem covers_eq_true_iff {x : Int} {bits : UInt8} {c : Fin 64} :
    covers x bits c = true ↔ ∃ j, columnAt x j = c ∧ bitAt bits j = true := by
  simp [covers]

theorem covers_columnAt (x : Int) (bits : UInt8) (j : Fin 8) :
    covers x bits (columnAt x j) = bitAt bits j := by
  rw [Bool.eq_iff_iff, covers_eq_true_iff]
  constructor
  · rintro ⟨k, hk, hb⟩
    exact columnAt_injective x hk ▸ hb
  · intro hb
    exact ⟨j, rfl, hb⟩

theorem covers_zero (x : Int) (c : Fin 64) : covers x 0 c = false := by
  rw [Bool.eq_false_iff]
  intro h
  obtain ⟨j, -, hb⟩ := covers_eq_true_iff.1 h
  simp [bitAt] at hb

/-! ## One byte -/

/-- A byte toggles the pixels it covers. -/
theorem get_drawByte (s : Screen) (x y : Int) (bits : UInt8) (c : Fin 64) (r : Fin 32) :
    (s.drawByte x y bits).2.get c r = (s.get c r ^^ (row y == r && covers x bits c)) := by
  -- On its line a byte writes each column it reaches with what the column holds, toggled if
  -- covered. As these columns differ, what is written depends on the column alone.
  change get ⟨s.rows.set (row y) _⟩ c r = _
  rw [get_set_row]
  split
  · rename_i hr
    subst hr
    have hg := getElem_foldl_set (columnAt x) (fun c => s.get c (row y) ^^ covers x bits c)
      (List.finRange 8) s.rows[row y] c
    simp only [covers_columnAt] at hg
    refine hg.trans ?_
    rw [beq_self_eq_true, Bool.true_and]
    split
    · rfl
    · rename_i hc
      have hn : covers x bits c = false := by
        rw [Bool.eq_false_iff, ne_eq, covers_eq_true_iff]
        rintro ⟨j, rfl, -⟩
        exact hc (List.any_eq_true.2 ⟨j, List.mem_finRange j, beq_self_eq_true _⟩)
      rw [hn, Bool.xor_false]
      rfl
  · rename_i hr
    rw [beq_eq_false_iff_ne.2 hr, Bool.false_and, Bool.xor_false]

/-- A byte puts a lit pixel out exactly if it covers one. -/
theorem drawByte_hit_iff {s : Screen} {x y : Int} {bits : UInt8} :
    (s.drawByte x y bits).1 = true ↔
      ∃ c r, (row y == r && covers x bits c) = true ∧ s.get c r = true := by
  have hb : (s.drawByte x y bits).1 = true ↔
      ∃ j, s.get (columnAt x j) (row y) = true ∧ bitAt bits j = true := by
    simp [drawByte, get]
  rw [hb]
  constructor
  · rintro ⟨j, hs, hj⟩
    exact ⟨columnAt x j, row y, by simp [covers_columnAt, hj], hs⟩
  · rintro ⟨c, r, hc, hs⟩
    rw [Bool.and_eq_true, beq_iff_eq, covers_eq_true_iff] at hc
    obtain ⟨rfl, j, rfl, hj⟩ := hc
    exact ⟨j, hs, hj⟩

/-! ## Coverage -/

/-- How often a sprite covers a pixel: the number of rows and places of the sprite whose bit is set
and falls on the pixel. -/
def coverage (x y : Int) (sprite : List Int) (c : Fin 64) (r : Fin 32) : Nat :=
  (Finset.univ.filter fun p : Fin sprite.length × Fin 8 =>
    (sprite.get p.1 % 256).toNat.testBit (7 - p.2.val) = true ∧
      (x + p.2.val) % 64 = c.val ∧ (y + p.1.val) % 32 = r.val).card

theorem coverage_nil (x y : Int) (c : Fin 64) (r : Fin 32) : coverage x y [] c r = 0 := rfl

theorem bitAt_lowByte (v : Int) (j : Fin 8) :
    bitAt (lowByte v) j = (v % 256).toNat.testBit (7 - j.val) := by
  have hv : (lowByte v).toNat = (v % 256).toNat := by
    have := toNat_lowByte v
    omega
  rw [bitAt, hv]

/-- The eight pixels of a byte lie on different columns, so that it covers each pixel once at
most. -/
theorem card_places (x y v : Int) (c : Fin 64) (r : Fin 32) :
    (Finset.univ.filter fun j : Fin 8 => (v % 256).toNat.testBit (7 - j.val) = true ∧
      (x + j.val) % 64 = c.val ∧ y % 32 = r.val).card =
      (row y == r && covers x (lowByte v) c).toNat := by
  simp only [← bitAt_lowByte, ← columnAt_eq_iff, ← row_eq_iff]
  cases hc : row y == r && covers x (lowByte v) c with
  | false =>
    refine Finset.card_eq_zero.2 (Finset.filter_eq_empty_iff.2 fun j _ h => ?_)
    obtain ⟨hb, rfl, rfl⟩ := h
    simp [covers_columnAt, hb] at hc
  | true =>
    rw [Bool.and_eq_true, beq_iff_eq, covers_eq_true_iff] at hc
    obtain ⟨rfl, j, rfl, hb⟩ := hc
    refine Finset.card_eq_one.2 ⟨j, Finset.ext fun k => ?_⟩
    rw [Finset.mem_filter, Finset.mem_singleton]
    constructor
    · rintro ⟨-, -, hk, -⟩
      exact columnAt_injective x hk
    · rintro rfl
      exact ⟨Finset.mem_univ _, hb, rfl, rfl⟩

/-- The places of some rows are those of the first one and those of the others. -/
theorem card_places_succ {n : Nat} (P : Fin (n + 1) × Fin 8 → Prop) [DecidablePred P] :
    (Finset.univ.filter P).card =
      (Finset.univ.filter fun j => P (0, j)).card +
        (Finset.univ.filter fun p : Fin n × Fin 8 => P (p.1.succ, p.2)).card := by
  simp only [Finset.card_filter, Fintype.sum_prod_type]
  exact Fin.sum_univ_succ _

theorem coverage_cons (x y v : Int) (rest : List Int) (c : Fin 64) (r : Fin 32) :
    coverage x y (v :: rest) c r =
      (row y == r && covers x (lowByte v) c).toNat + coverage x (y + 1) rest c r := by
  -- The rows after the first start one row further down.
  have hy (k : Nat) : y + ((k + 1 : Nat) : Int) = y + 1 + k := by omega
  rw [← card_places, coverage]
  refine (card_places_succ _).trans ?_
  congr 1
  · simp
  · simp only [Fin.val_succ, hy]
    rfl

theorem coverage_cons_of_zero {v : Int} (hv : lowByte v = 0) (x y : Int) (rest : List Int)
    (c : Fin 64) (r : Fin 32) :
    coverage x y (v :: rest) c r = coverage x (y + 1) rest c r := by
  rw [coverage_cons, hv, covers_zero, Bool.and_false, Bool.toNat_false, Nat.zero_add]

/-! ## Whole sprites -/

/-- What a pixel holds that was toggled `b` times and is to be toggled `n` times more. -/
theorem xor_toggles (lit b : Bool) (n : Nat) :
    (lit ^^ b ^^ decide (n % 2 = 1)) = (lit ^^ decide ((b.toNat + n) % 2 = 1)) := by
  have hn : n % 2 = 0 ∨ n % 2 = 1 := by omega
  cases b with
  | false => simp
  | true =>
    have hs : decide ((1 + n) % 2 = 1) = !decide (n % 2 = 1) := by
      rcases hn with h | h <;> simp [Nat.add_mod, h]
    rw [Bool.toNat_true, hs]
    cases lit <;> simp

/-- A pixel goes out among `b + n` toggles if it does so among the first `b` or the last `n`. -/
theorem goes_out_iff (lit b : Bool) (n : Nat) :
    (b = true ∧ lit = true) ∨ 2 ≤ n ∨ 1 ≤ n ∧ (lit ^^ b) = true ↔
      2 ≤ b.toNat + n ∨ 1 ≤ b.toNat + n ∧ lit = true := by
  cases b with
  | false => simp
  | true =>
    cases lit with
    | false =>
      simp only [Bool.toNat_true, Bool.false_xor]
      grind
    | true =>
      simp only [Bool.toNat_true, Bool.xor_self]
      grind

/-- At a column in range, drawing toggles each pixel as often as the sprite covers it. -/
theorem draw_inRange {x : Int} (hx : inRange x = true) (s : Screen) (y : Int) (sprite : List Int) :
    ∃ hit drawn, s.draw x y sprite = (.ok hit, drawn) ∧
      (∀ c r, drawn.get c r = (s.get c r ^^ decide (coverage x y sprite c r % 2 = 1))) ∧
      (hit = true ↔ ∃ c r, 2 ≤ coverage x y sprite c r ∨
        1 ≤ coverage x y sprite c r ∧ s.get c r = true) := by
  -- Each row is drawn on the screen that the rows above have left, one row further down.
  induction sprite generalizing s y with
  | nil => exact ⟨false, s, rfl, by simp [coverage_nil], by simp [coverage_nil]⟩
  | cons v rest ih =>
    rw [draw]
    split
    · rename_i hv
      simp only [coverage_cons_of_zero hv]
      exact ih s (y + 1)
    · obtain ⟨hits, drawn, hd, hget, hhits⟩ := ih (s.drawByte x y (lowByte v)).2 (y + 1)
      simp only [hd]
      refine ⟨_, drawn, rfl, fun c r => ?_, ?_⟩
      · rw [hget, get_drawByte, xor_toggles, coverage_cons]
      -- A pixel goes out at this row or at a later one, and that pixel is the one asked for.
      · rw [Bool.or_eq_true, drawByte_hit_iff, hhits]
        simp only [← exists_or, get_drawByte, goes_out_iff, ← coverage_cons]

/-- At a column out of range, drawing is refused at the first byte that is not zero, before
anything is drawn. -/
theorem draw_not_inRange {x : Int} (hx : inRange x = false) (s : Screen) (y : Int)
    (sprite : List Int) :
    s.draw x y sprite =
      (if ∃ v ∈ sprite, v % 256 ≠ 0 then .error ⟨x⟩ else .ok false, s) := by
  induction sprite generalizing y with
  | nil => rfl
  | cons v rest ih =>
    rw [draw]
    by_cases hv : lowByte v = 0
    · have hm : v % 256 = 0 := lowByte_eq_zero_iff.1 hv
      rw [if_pos hv, ih]
      simp only [List.mem_cons, exists_eq_or_imp, hm, ne_eq, not_true_eq_false, false_or]
    · have hm : v % 256 ≠ 0 := fun h => hv (lowByte_eq_zero_iff.2 h)
      rw [if_neg hv, if_neg (by simp [hx]), if_pos ⟨v, List.mem_cons_self, hm⟩]

theorem inRange_eq_true_iff {x : Int} : inRange x = true ↔ -2 ^ 63 ≤ x ∧ x < 2 ^ 63 := by
  have h : (2 : Int) ^ 63 = 0x8000000000000000 := rfl
  rw [h, inRange, Bool.and_eq_true, decide_eq_true_eq, decide_eq_true_eq]

/-- Drawing a sprite toggles each pixel as often as the sprite covers it and tells whether a lit
pixel went out on the way, which is the case if a pixel is covered twice, or once and was lit. At a
column that is no signed 64-bit integer it changes nothing, and is refused unless all bytes are
zero. -/
theorem draw_toggles_coverage (s : Screen) (x y : Int) (sprite : List Int) :
    (-2 ^ 63 ≤ x ∧ x < 2 ^ 63 →
      ∃ hit drawn, s.draw x y sprite = (.ok hit, drawn) ∧
        (∀ c r, drawn.get c r = (s.get c r ^^ decide (coverage x y sprite c r % 2 = 1))) ∧
        (hit = true ↔ ∃ c r, 2 ≤ coverage x y sprite c r ∨
          1 ≤ coverage x y sprite c r ∧ s.get c r = true)) ∧
    (¬(-2 ^ 63 ≤ x ∧ x < 2 ^ 63) →
      s.draw x y sprite =
        (if ∃ v ∈ sprite, v % 256 ≠ 0 then .error ⟨x⟩ else .ok false, s)) := by
  rw [← inRange_eq_true_iff]
  constructor
  · intro hx
    exact draw_inRange hx s y sprite
  · intro hx
    exact draw_not_inRange (Bool.eq_false_iff.2 hx) s y sprite

theorem draw_around_last_column :
    (∃ hit drawn, blank.draw (2 ^ 63 - 1) (-1) [0xC0] = (.ok hit, drawn) ∧
      drawn.get 63 31 = true ∧ drawn.get 0 31 = true ∧ drawn.get 1 31 = false) ∧
    blank.draw (2 ^ 63) (-1) [0x100, 0xC0] = (.error ⟨2 ^ 63⟩, blank) := by
  constructor
  · obtain ⟨hit, drawn, hd, hget, -⟩ :=
      (draw_toggles_coverage blank (2 ^ 63 - 1) (-1) [0xC0]).1 (by decide)
    refine ⟨hit, drawn, hd, ?_, ?_, ?_⟩ <;> rw [hget, get_blank] <;> decide
  · exact (draw_toggles_coverage blank (2 ^ 63) (-1) [0x100, 0xC0]).2 (by decide)

end ChipVm.Screen
