/-
All readings of a screen agree: a pixel by its coordinates, by its index of either sign, in a slice,
in a pass over the pixels in either direction, by counting and by searching.
-/
import ChipVm.Proofs.Screen.Algebra
import ChipVm.Proofs.Screen.Slices
import Mathlib.Data.Bool.Count
import Mathlib.Data.List.OfFn

namespace ChipVm

namespace Screen

/-! ## One pixel -/

/-- Positions run along the rows. -/
theorem at?_eq (s : Screen) (i : Nat) :
    s.at? i = if i < 2048 then some (s.pixel i (i / 64)) else none := by
  rw [at?]
  by_cases h : i < 2048
  · have hc : column i = ⟨i % 64, by omega⟩ :=
      column_eq_iff.2 (show (i : Int) % 64 = (i % 64 : Nat) by omega)
    have hr : row (i / 64 : Int) = ⟨i / 64, by omega⟩ :=
      row_eq_iff.2 (show (i / 64 : Int) % 32 = (i / 64 : Nat) by omega)
    rw [dif_pos h, if_pos h, pixel, hc, hr]
  · rw [dif_neg h, if_neg h]

theorem pixel_congr (s : Screen) {x y x' y' : Int} (hx : x % 64 = x' % 64)
    (hy : y % 32 = y' % 32) : s.pixel x y = s.pixel x' y' := by
  simp only [pixel, column, row, hx, hy]

/-- An index of either sign stands for the pixel of its column, a row for each `64`. -/
theorem pixelAt_eq (s : Screen) (i : Int) :
    s.pixelAt i =
      if -2048 ≤ i ∧ i < 2048 then .ok (s.pixel i (i / 64)) else .error .indexOutOfRange := by
  simp only [pixelAt]
  -- Counting from the end adds `32` rows, which the coordinates do not see.
  generalize hj : (if i < 0 then i + 2048 else i) = j
  have hcounted : i < 0 ∧ j = i + 2048 ∨ 0 ≤ i ∧ j = i := by
    rw [← hj]
    split <;> omega
  by_cases h : -2048 ≤ i ∧ i < 2048
  · have hpixel : s.pixel j.toNat (j.toNat / 64) = s.pixel i (i / 64) :=
      s.pixel_congr (by omega) (by omega)
    rw [if_neg (by omega), at?_eq, if_pos (by omega), if_pos h, hpixel]
  · rw [if_neg h]
    split
    · rfl
    · rw [at?_eq, if_neg (by omega)]

/-! ## All pixels -/

theorem pixels_eq_ofFn (s : Screen) :
    s.pixels = List.ofFn fun i : Fin (32 * 64) => s.pixel i.val (i.val / 64) := by
  rw [pixels, List.flatMap_def, toList_eq_ofFn, List.map_ofFn, List.ofFn_mul]
  congr 2
  funext r
  rw [Function.comp_apply, toList_eq_ofFn]
  congr 1
  funext c
  have hc : column (r.val * 64 + c.val : Nat) = c := column_eq_iff.2 (by omega)
  have hr : row ((r.val * 64 + c.val : Nat) / 64 : Int) = r := row_eq_iff.2 (by omega)
  rw [pixel, hc, hr]
  rfl

theorem getElem?_pixels (s : Screen) (i : Nat) : s.pixels[i]? = s.at? i := by
  rw [pixels_eq_ofFn, List.getElem?_ofFn, at?_eq]
  rfl

theorem length_pixels (s : Screen) : s.pixels.length = 2048 := by
  rw [pixels_eq_ofFn, List.length_ofFn]

theorem pixelAt_natCast (s : Screen) (i : Nat) (b : Bool) :
    s.pixelAt i = .ok b ↔ s.at? i = some b := by
  rw [pixelAt_eq, at?_eq]
  by_cases h : i < 2048
  · rw [if_pos (by omega), if_pos h]
    simp
  · rw [if_neg (by omega), if_neg h]
    simp

/-- A pass over the pixels reads them at one position after another. -/
theorem pixels_eq_map (s : Screen) :
    s.pixels = (List.range 2048).map fun i => (s.at? i).getD false := by
  refine List.ext_getElem? fun i => ?_
  rw [getElem?_pixels, List.getElem?_map, at?_eq]
  by_cases h : i < 2048
  · rw [List.getElem?_range h, if_pos h]
    simp [at?_eq, h]
  · rw [List.getElem?_eq_none (by simpa using h), if_neg h]
    rfl

theorem at?_getD {s : Screen} {i : Nat} (h : i < 2048) : s.at? i = some ((s.at? i).getD false) := by
  rw [at?_eq, if_pos h]
  rfl

theorem reversed_eq (s : Screen) : s.reversed = s.pixels.reverse := by
  have hpass : (List.range size).filterMap s.at? = s.pixels := by
    rw [pixels_eq_map, ← List.filterMap_eq_map]
    exact List.filterMap_congr fun i hi => at?_getD (List.mem_range.1 hi)
  rw [reversed, List.filterMap_reverse, hpass]

theorem map_pixelAt (s : Screen) :
    (List.range 2048).map (fun (i : Nat) => s.pixelAt i) = s.pixels.map .ok := by
  rw [pixels_eq_map, List.map_map]
  refine List.map_congr_left fun i hi => ?_
  exact (s.pixelAt_natCast i _).2 (at?_getD (List.mem_range.1 hi))

/-! ## Slices -/

theorem slicePixels_eq_ok {s : Screen} {slice : Slice} {ks : List Int}
    (hks : slice.positions 2048 = some ks) :
    s.slicePixels slice = .ok (ks.map fun k => (s.at? k.toNat).getD false) := by
  rw [slicePixels, hks]

theorem slicePixels_walks (s : Screen) {slice : Slice} (hstep : slice.step ≠ some 0) :
    ∃ ks bs, slice.Walks 2048 (slice.step.getD 1) ks ∧ (∀ k ∈ ks, 0 ≤ k ∧ k ≤ 2047) ∧
      s.slicePixels slice = .ok bs ∧ ks.map s.pixelAt = bs.map .ok := by
  obtain ⟨ks, hks, hwalks⟩ := Slice.exists_walks (Slice.step_ne_zero hstep) 2048
  have hrange (k : Int) (hk : k ∈ ks) : 0 ≤ k ∧ k ≤ 2047 :=
    ⟨(hwalks.mem hk).1, Int.le_of_lt_add_one (hwalks.mem hk).2⟩
  refine ⟨ks, _, hwalks, hrange, slicePixels_eq_ok hks, ?_⟩
  rw [List.map_map]
  refine List.map_congr_left fun k hk => ?_
  obtain ⟨hlow, hhigh⟩ := hrange k hk
  obtain ⟨i, rfl⟩ := Int.eq_ofNat_of_zero_le hlow
  exact (s.pixelAt_natCast i _).2 (at?_getD (by omega))

theorem slicePixels_split (s : Screen) (k : Int) :
    ∃ l r, s.slicePixels ⟨none, some k, none⟩ = .ok l ∧
      s.slicePixels ⟨some k, none, none⟩ = .ok r ∧ l ++ r = s.pixels := by
  refine ⟨_, _, slicePixels_eq_ok (Slice.positions_upTo 2048 k),
    slicePixels_eq_ok (Slice.positions_from 2048 k), ?_⟩
  have hcut := Nat.add_sub_cancel' (Slice.cut_le 2048 k)
  conv_rhs => rw [pixels_eq_map, ← hcut, List.range_add, List.map_append, List.map_map]
  rw [List.map_map, List.map_map]
  rfl

theorem slicePixels_backward (s : Screen) :
    s.slicePixels ⟨none, none, some (-1)⟩ = .ok s.pixels.reverse := by
  rw [slicePixels_eq_ok (Slice.positions_backward 2048), pixels_eq_map, List.map_map,
    List.map_reverse]
  rfl

/-! ## Counting and searching -/

theorem litCount_add_countPixels (s : Screen) : s.litCount + s.countPixels false = 2048 := by
  rw [← s.length_pixels]
  exact List.count_true_add_count_false _

theorem lt_of_at?_eq_some {s : Screen} {i : Nat} {b : Bool} (h : s.at? i = some b) : i < 2048 := by
  rw [← s.length_pixels]
  exact (List.getElem?_eq_some_iff.1 ((s.getElem?_pixels i).trans h)).1

/-- The search stops at the first position that holds the value. -/
theorem find?_eq_some_iff {s : Screen} {value : Bool} {i : Nat} :
    (List.range size).find? (s.at? · == some value) = some i ↔
      s.at? i = some value ∧ ∀ j < i, s.at? j ≠ some value := by
  rw [List.find?_range_eq_some]
  simp only [beq_iff_eq, List.mem_range, Bool.not_eq_true', beq_eq_false_iff_ne, ne_eq]
  exact and_congr_right fun h => and_iff_right (lt_of_at?_eq_some h)

theorem find?_eq_none_iff {s : Screen} {value : Bool} :
    (List.range size).find? (s.at? · == some value) = none ↔ ∀ i, s.at? i ≠ some value := by
  rw [List.find?_range_eq_none]
  simp only [Bool.not_eq_true', beq_eq_false_iff_ne, ne_eq]
  exact ⟨fun h i hi => h i (lt_of_at?_eq_some hi) hi, fun h i _ => h i⟩

theorem indexOfPixel_eq_ok_iff {s : Screen} {value : Bool} {i : Nat} :
    s.indexOfPixel value = .ok i ↔ s.at? i = some value ∧ ∀ j < i, s.at? j ≠ some value := by
  rw [indexOfPixel, ← find?_eq_some_iff]
  cases (List.range size).find? (s.at? · == some value) <;> simp

theorem indexOfPixel_eq_error_iff {s : Screen} {value : Bool} :
    s.indexOfPixel value = .error .noSuchPixel ↔ ∀ i, s.at? i ≠ some value := by
  rw [indexOfPixel, ← find?_eq_none_iff]
  cases (List.range size).find? (s.at? · == some value) <;> simp

/-! ## All readings -/

/-- Whether what is read through a view, `seen`, agrees with itself and with what is read of the
framebuffer, which shows `shown`. -/
structure Agrees (shown seen : Screen) : Prop where
  pixel : ∀ x y : Int, seen.pixelAt (64 * (y % 32) + x % 64) = .ok (shown.pixel x y)
  negative : ∀ i : Int, -2048 ≤ i ∧ i < 0 → seen.pixelAt i = seen.pixelAt (i + 2048)
  refused : ∀ i : Int, seen.pixelAt i = .error .indexOutOfRange ↔ i < -2048 ∨ 2047 < i
  slice : ∀ slice : Slice, slice.step ≠ some 0 → ∃ ks bs,
    slice.Walks 2048 (slice.step.getD 1) ks ∧ (∀ k ∈ ks, 0 ≤ k ∧ k ≤ 2047) ∧
      seen.slicePixels slice = .ok bs ∧ ks.map seen.pixelAt = bs.map .ok
  split : ∀ k : Int, ∃ l r, seen.slicePixels ⟨none, some k, none⟩ = .ok l ∧
    seen.slicePixels ⟨some k, none, none⟩ = .ok r ∧ l ++ r = seen.pixels
  backward : seen.slicePixels ⟨none, none, some (-1)⟩ = .ok seen.pixels.reverse
  pass : (List.range 2048).map (fun (i : Nat) => seen.pixelAt i) = seen.pixels.map .ok
  reversed : seen.reversed = seen.pixels.reverse
  count : seen.countPixels true = shown.litCount ∧
    shown.litCount + seen.countPixels false = 2048
  index : ∀ (value : Bool) (i : Nat), seen.indexOfPixel value = .ok i ↔
    seen.pixelAt i = .ok value ∧ ∀ j < i, seen.pixelAt (j : Nat) ≠ .ok value
  missing : ∀ value : Bool, seen.indexOfPixel value = .error .noSuchPixel ↔
    ∀ i : Nat, seen.pixelAt i ≠ .ok value

theorem agrees_self (s : Screen) : Agrees s s where
  pixel x y := by
    rw [pixelAt_eq, if_pos (by omega)]
    exact congrArg _ (s.pixel_congr (by omega) (by omega))
  negative i h := by
    rw [pixelAt_eq, pixelAt_eq, if_pos (by omega), if_pos (by omega)]
    exact congrArg _ (s.pixel_congr (by omega) (by omega))
  refused i := by
    rw [pixelAt_eq]
    by_cases h : -2048 ≤ i ∧ i < 2048
    · rw [if_pos h]
      exact iff_of_false (by simp) (by omega)
    · rw [if_neg h]
      exact iff_of_true rfl (by omega)
  slice _ hstep := s.slicePixels_walks hstep
  split := s.slicePixels_split
  backward := s.slicePixels_backward
  pass := s.map_pixelAt
  reversed := s.reversed_eq
  count := ⟨rfl, s.litCount_add_countPixels⟩
  index value i := by
    simp only [pixelAt_natCast, ne_eq]
    exact indexOfPixel_eq_ok_iff
  missing value := by
    simp only [pixelAt_natCast, ne_eq]
    exact indexOfPixel_eq_error_iff

end Screen

end ChipVm
