/-
The positions of a slice of a sequence. They start at the start of the slice and go on in equal
steps; they are the ones on the way that lie in the sequence and come before the stop of the slice,
so that a stop outside of the sequence needs no rule of its own.
-/
import ChipVm.Screen.Pixels

namespace ChipVm.Slice

/-! ## Walks -/

/-- The position that an index stands for: a negative one counts from the end. -/
def counted (length i : Int) : Int := if i < 0 then i + length else i

/-- Where the walk along a slice starts: at its start, or at the end of the sequence that the step
comes from if the start is absent or lies before that end. -/
def origin (s : Slice) (length step : Int) : Int :=
  if 0 < step then s.start.elim 0 fun i => max 0 (counted length i)
  else s.start.elim (length - 1) fun i => min (length - 1) (counted length i)

/-- Whether a position comes before the stop of a slice on a walk with a step. -/
def Before (s : Slice) (length step k : Int) : Prop :=
  ∀ j ∈ s.stop, if 0 < step then k < counted length j else counted length j < k

/-- Whether the positions are those of the walk along a slice of a sequence: the `n`th is `n` steps
from the origin, and there is one as long as that lies in the sequence and before the stop. -/
def Walks (s : Slice) (length step : Int) (ks : List Int) : Prop :=
  ∀ (n : Nat) (k : Int), ks[n]? = some k ↔
    k = s.origin length step + n * step ∧ (0 ≤ k ∧ k < length) ∧ s.Before length step k

theorem before_none {start step : Option Int} {length way k : Int} :
    (⟨start, none, step⟩ : Slice).Before length way k ↔ True := by
  simp [Before]

theorem before_some {start step : Option Int} {j length way k : Int} :
    (⟨start, some j, step⟩ : Slice).Before length way k ↔
      if 0 < way then k < counted length j else counted length j < k := by
  simp [Before]

theorem Walks.mem {s : Slice} {length step : Int} {ks : List Int} (h : s.Walks length step ks)
    {k : Int} (hk : k ∈ ks) : 0 ≤ k ∧ k < length := by
  obtain ⟨n, hn⟩ := List.getElem?_of_mem hk
  exact ((h n k).1 hn).2.1

/-! ## Positions -/

/-- Equal steps lead on in the direction of the step. -/
theorem way_of_step (n : Nat) (step : Int) :
    if 0 < step then 0 ≤ n * step else n * step ≤ 0 := by
  split
  · exact Int.mul_nonneg (Int.natCast_nonneg n) (by omega)
  · exact Int.mul_nonpos_of_nonneg_of_nonpos (Int.natCast_nonneg n) (by omega)

theorem getElem?_map_range_eq_some_iff {f : Nat → Int} {m n : Nat} {k : Int} :
    ((List.range m).map f)[n]? = some k ↔ n < m ∧ f n = k := by
  simp only [List.getElem?_map, Option.map_eq_some_iff, List.getElem?_eq_some_iff,
    List.getElem_range, List.length_range, exists_prop, and_assoc, exists_and_left, exists_eq_left']

/-- As many steps are counted as stay before the stop. -/
theorem lt_stepCount_iff {step : Int} (hstep : step ≠ 0) {start stop : Int} {n : Nat} :
    n < stepCount start stop step ↔
      if 0 < step then start + n * step < stop else stop < start + n * step := by
  have hway := way_of_step n step
  rw [stepCount]
  by_cases hpos : 0 < step
  · have hquotient := Int.le_ediv_iff_mul_le (a := n) (b := stop - start - 1) hpos
    rw [if_pos hpos] at hway ⊢
    rw [if_pos hpos]
    split <;> omega
  · have hquotient :=
      Int.le_ediv_iff_mul_le (a := n) (b := start - stop - 1) (by omega : 0 < -step)
    rw [Int.mul_neg] at hquotient
    rw [if_neg hpos] at hway ⊢
    rw [if_neg hpos]
    split <;> omega

theorem step_ne_zero {s : Slice} (h : s.step ≠ some 0) : s.step.getD 1 ≠ 0 := by
  cases hs : s.step with
  | none => decide
  | some step =>
    intro hzero
    exact h (hs.trans (congrArg some hzero))

theorem positions_of_ne {s : Slice} (hstep : s.step.getD 1 ≠ 0) (length : Nat) :
    s.positions length =
      some ((List.range (stepCount (s.bounds length (s.step.getD 1)).1
        (s.bounds length (s.step.getD 1)).2 (s.step.getD 1))).map fun (k : Nat) =>
          (s.bounds length (s.step.getD 1)).1 + k * s.step.getD 1) := by
  rw [positions, if_neg hstep]

/-- A bound is cut to a range that has all positions in it. -/
theorem clampBound_eq {length low high : Int} (hlow : low ≤ 0) (hhigh : length - 1 ≤ high)
    (hle : low ≤ high) (i : Int) :
    clampBound length low high i = max low (min high (counted length i)) := by
  rw [clampBound, counted]
  split <;> omega

/-- A position that stays between the cut bounds is one on the walk that lies in the sequence and
before the stop. -/
theorem between_bounds_iff (s : Slice) (length : Nat) {step way : Int}
    (hway : if 0 < step then 0 ≤ way else way ≤ 0) (k : Int) :
    (k = (s.bounds length step).1 + way ∧
      if 0 < step then k < (s.bounds length step).2 else (s.bounds length step).2 < k) ↔
    k = s.origin length step + way ∧ (0 ≤ k ∧ k < length) ∧ s.Before length step k := by
  obtain ⟨start, stop, -⟩ := s
  -- The cut start is the origin, unless that lies beyond the far end, where no position follows;
  -- a stop that is cut to an end comes as soon as the walk leaves the sequence.
  by_cases hpos : 0 < step
  · have hclamp := clampBound_eq (Int.le_refl 0) (by omega : (length : Int) - 1 ≤ length) (by omega)
    simp only [bounds, origin, if_pos hpos] at hway ⊢
    cases start <;> cases stop <;>
      simp only [Option.map_none, Option.map_some, Option.getD_none, Option.getD_some,
        Option.elim_none, Option.elim_some, before_none, before_some, if_pos hpos, hclamp,
        and_true] <;>
      omega
  · have hclamp := clampBound_eq (by decide) (Int.le_refl ((length : Int) - 1))
      (by omega : -1 ≤ (length : Int) - 1)
    simp only [bounds, origin, if_neg hpos] at hway ⊢
    cases start <;> cases stop <;>
      simp only [Option.map_none, Option.map_some, Option.getD_none, Option.getD_some,
        Option.elim_none, Option.elim_some, before_none, before_some, if_neg hpos, hclamp,
        and_true] <;>
      omega

theorem exists_walks {s : Slice} (hstep : s.step.getD 1 ≠ 0) (length : Nat) :
    ∃ ks, s.positions length = some ks ∧ s.Walks length (s.step.getD 1) ks := by
  refine ⟨_, positions_of_ne hstep length, fun n k => ?_⟩
  rw [← between_bounds_iff s length (way_of_step n _), getElem?_map_range_eq_some_iff]
  constructor
  · rintro ⟨hn, rfl⟩
    exact ⟨rfl, (lt_stepCount_iff hstep).1 hn⟩
  · rintro ⟨rfl, hbefore⟩
    exact ⟨(lt_stepCount_iff hstep).2 hbefore, rfl⟩

example : (⟨some (-3), none, some (-1000)⟩ : Slice).positions 2048 = some [2045, 1045, 45] := by
  decide

theorem Walks.eq {s : Slice} {length step : Int} {ks ls : List Int}
    (hks : s.Walks length step ks) (hls : s.Walks length step ls) : ks = ls :=
  List.ext_getElem? fun n => Option.ext fun k => (hks n k).trans (hls n k).symm

theorem positions_of_walks {s : Slice} {length : Nat} {ks : List Int} (hstep : s.step.getD 1 ≠ 0)
    (h : s.Walks length (s.step.getD 1) ks) : s.positions length = some ks := by
  obtain ⟨ls, hls, hwalks⟩ := exists_walks hstep length
  rw [hls, hwalks.eq h]

/-! ## Slices in single steps -/

/-- How many positions come before a bound. -/
def cut (length : Nat) (k : Int) : Nat := (max 0 (min (length : Int) (counted length k))).toNat

theorem cut_le (length : Nat) (k : Int) : cut length k ≤ length := by
  rw [cut]
  omega

theorem positions_upTo (length : Nat) (k : Int) :
    (⟨none, some k, none⟩ : Slice).positions length =
      some ((List.range (cut length k)).map fun (i : Nat) => (i : Int)) := by
  refine positions_of_walks Int.one_ne_zero fun n j => ?_
  rw [getElem?_map_range_eq_some_iff, before_some]
  simp only [cut, origin, Option.getD_none, Int.zero_lt_one, if_true, Option.elim_none]
  omega

theorem positions_from (length : Nat) (k : Int) :
    (⟨some k, none, none⟩ : Slice).positions length =
      some ((List.range (length - cut length k)).map fun (i : Nat) =>
        ((cut length k + i : Nat) : Int)) := by
  refine positions_of_walks Int.one_ne_zero fun n j => ?_
  rw [getElem?_map_range_eq_some_iff, before_none, and_true]
  simp only [cut, origin, Option.getD_none, Int.zero_lt_one, if_true, Option.elim_some]
  omega

theorem positions_backward (length : Nat) :
    (⟨none, none, some (-1)⟩ : Slice).positions length =
      some ((List.range length).reverse.map fun (i : Nat) => (i : Int)) := by
  have hstep : ¬(0 : Int) < -1 := by decide
  refine positions_of_walks (show (-1 : Int) ≠ 0 by decide) fun n j => ?_
  rw [List.range_eq_range', List.reverse_range', List.map_map, getElem?_map_range_eq_some_iff,
    Function.comp_apply, before_none, and_true]
  simp only [origin, Option.getD_some, hstep, if_false, Option.elim_none]
  omega

end ChipVm.Slice
