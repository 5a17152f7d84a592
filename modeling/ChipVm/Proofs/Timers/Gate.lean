/-
The gate of the timers. Ticks that come late leave a backlog, which later ticks work off one at a
time, so that how many have gone through depends on how late each one came. In closed form it is
the least, over the ticks so far, of the intervals that had passed at a tick and the ticks since. As
a counter goes down by one at a tick that goes through and stays at any other, this also bounds what
the ticks take off it.
-/
import ChipVm.Timers
import Mathlib.Data.Int.ConditionallyCompleteOrder
import Mathlib.Order.Bounds.Basic
import Mathlib.Order.Monotone.Basic
import Mathlib.Tactic.Linarith
import Mathlib.Tactic.Ring

namespace ChipVm.Timers

/-! ## Ticks -/

/-- Whether an edit assigns one of the counters. -/
def Edit.Assigns : Edit → Prop
  | .setDelay _ | .setSound _ => True
  | .tick _ | .reset => False

/-- The timers after some edits. -/
def editAll (t : Timers) : List Edit → Timers
  | [] => t
  | e :: es => (t.edit e).2.editAll es

theorem editAll_append (t : Timers) (es fs : List Edit) :
    t.editAll (es ++ fs) = (t.editAll es).editAll fs := by
  induction es generalizing t with
  | nil => rfl
  | cons e es ih => exact ih (t.edit e).2

/-- The ticks of a host: the one numbered `i` comes after the edits `between i` and reads the clock
as `clock i`. -/
def ticks (t : Timers) (clock : Nat → Int) (between : Nat → List Edit) : Nat → Bool × Timers
  | 0 => (t.editAll (between 0)).tick (clock 0)
  | i + 1 => ((t.ticks clock between i).2.editAll (between (i + 1))).tick (clock (i + 1))

/-- The timers as the tick numbered `i` finds them. -/
def beforeTick (t : Timers) (clock : Nat → Int) (between : Nat → List Edit) : Nat → Timers
  | 0 => t.editAll (between 0)
  | i + 1 => (t.ticks clock between i).2.editAll (between (i + 1))

/-- How many of the ticks from `1` to `j` went through. -/
def through (t : Timers) (clock : Nat → Int) (between : Nat → List Edit) (j : Nat) : Nat :=
  (List.range' 1 j).countP fun i => (t.ticks clock between i).1

/-- How many whole intervals lie between the first tick and the one numbered `i`. -/
def elapsed (clock : Nat → Int) (i : Nat) : Int := (clock i - clock 0) / interval

/-- One of the two counters. -/
inductive Counter where
  | delay
  | sound
  deriving DecidableEq

/-- What a counter holds. -/
def Counter.value (t : Timers) : Counter → UInt8
  | .delay => t.delay
  | .sound => t.sound

/-- What the tick numbered `i` takes off a counter. -/
def taken (t : Timers) (clock : Nat → Int) (between : Nat → List Edit) (c : Counter) (i : Nat) :
    Int :=
  (c.value (t.beforeTick clock between i)).toNat - (c.value (t.ticks clock between i).2).toNat

/-- What the ticks up to the one numbered `j` take off a counter altogether. -/
def takenUpTo (t : Timers) (clock : Nat → Int) (between : Nat → List Edit) (c : Counter) :
    Nat → Int
  | 0 => t.taken clock between c 0
  | j + 1 => t.takenUpTo clock between c j + t.taken clock between c (j + 1)

variable {t : Timers} {clock : Nat → Int} {between : Nat → List Edit} {c : Counter} {now : Int}

theorem lastTick_editAll {es : List Edit} (hes : ∀ e ∈ es, e.Assigns) :
    (t.editAll es).lastTick = t.lastTick := by
  induction es generalizing t with
  | nil => rfl
  | cons e es ih =>
    have he : (t.edit e).2.lastTick = t.lastTick := by
      have hassigns := hes e List.mem_cons_self
      cases e with
      | setDelay v => rfl
      | setSound v => rfl
      | tick now => cases hassigns
      | reset => cases hassigns
    rw [editAll, ih fun d hd => hes d (List.mem_cons_of_mem e hd), he]

/-! ## One tick -/

theorem tick_of_lastTick_none (h : t.lastTick = none) (now : Int) :
    (t.tick now).1 = true ∧ (t.tick now).2.lastTick = some now := by
  simp [tick, nextTick, h]

/-- A tick goes through if more intervals have passed than the reference has moved by. -/
theorem tick_of_lastTick {start moved : Int} (h : t.lastTick = some (start + moved * interval))
    (now : Int) :
    ((t.tick now).1 = true ↔ moved < (now - start) / interval) ∧
      (t.tick now).2.lastTick =
        some (start + (moved + if (t.tick now).1 then 1 else 0) * interval) := by
  have hpos : 0 < interval := by decide
  have hgate : interval ≤ now - (start + moved * interval) ↔ moved < (now - start) / interval := by
    rw [← Int.add_one_le_iff, Int.le_ediv_iff_mul_le hpos]
    constructor <;> intro hle <;> linarith
  simp only [tick, nextTick, h]
  by_cases hopen : interval ≤ now - (start + moved * interval)
  · have hmoved : start + (moved + 1) * interval = start + moved * interval + interval := by ring
    simp only [if_pos hopen, if_true, hmoved]
    exact ⟨iff_of_true trivial (hgate.1 hopen), trivial⟩
  · simp only [if_neg hopen, h, Bool.false_eq_true, if_false, Int.add_zero]
    exact ⟨iff_of_false id fun hlt => hopen (hgate.2 hlt), trivial⟩

/-- A tick takes one off each counter that has something left if it goes through, and nothing if
not. -/
theorem value_tick (t : Timers) (now : Int) (c : Counter) :
    (c.value (t.tick now).2).toNat =
      (c.value t).toNat - if (t.tick now).1 then 1 else 0 := by
  unfold tick
  split
  · cases c <;> exact toNat_countDown _
  · rfl

/-! ## Many ticks -/

theorem ticks_eq (t : Timers) (clock : Nat → Int) (between : Nat → List Edit) (i : Nat) :
    t.ticks clock between i = (t.beforeTick clock between i).tick (clock i) := by
  cases i <;> rfl

theorem value_ticks (c : Counter) (i : Nat) :
    (c.value (t.ticks clock between i).2).toNat =
      (c.value (t.beforeTick clock between i)).toNat -
        if (t.ticks clock between i).1 then 1 else 0 := by
  rw [ticks_eq]
  exact value_tick _ _ c

theorem taken_le (c : Counter) (i : Nat) :
    t.taken clock between c i ≤ if (t.ticks clock between i).1 then 1 else 0 := by
  unfold taken
  rw [value_ticks]
  split <;> omega

theorem through_succ (j : Nat) :
    t.through clock between (j + 1) =
      t.through clock between j +
        if (t.ticks clock between (j + 1)).1 then 1 else 0 := by
  simp only [through, List.range'_1_concat, List.countP_append, List.countP_singleton,
    Nat.add_comm 1 j]

/-- Apart from the first tick, no more is taken off a counter than ticks go through. -/
theorem takenUpTo_le (c : Counter) (j : Nat) :
    t.takenUpTo clock between c j ≤ 1 + t.through clock between j := by
  induction j with
  | zero =>
    refine (taken_le c 0).trans ?_
    rw [through, List.range'_zero, List.countP_nil]
    split <;> decide
  | succ j ih =>
    calc t.takenUpTo clock between c (j + 1)
        ≤ 1 + t.through clock between j + if (t.ticks clock between (j + 1)).1 then 1 else 0 :=
          Int.add_le_add ih (taken_le c (j + 1))
      _ = 1 + t.through clock between (j + 1) := by
          rw [through_succ]
          push_cast
          ring

theorem elapsed_zero (clock : Nat → Int) : elapsed clock 0 = 0 := by
  simp [elapsed]

theorem elapsed_mono (hc : Monotone clock) {i j : Nat} (h : i ≤ j) :
    elapsed clock i ≤ elapsed clock j :=
  Int.ediv_le_ediv (by decide) (Int.sub_le_sub_right (hc h) _)

section

variable (ht : t.lastTick = none) (hb : ∀ i, ∀ e ∈ between i, e.Assigns)

include ht hb

/-- The first tick always goes through and sets the reference. -/
theorem ticks_zero :
    (t.ticks clock between 0).1 = true ∧
      (t.ticks clock between 0).2.lastTick = some (clock 0) :=
  tick_of_lastTick_none ((lastTick_editAll (hb 0)).trans ht) (clock 0)

/-- The reference has moved by one interval for each tick after the first that went through. -/
theorem lastTick_ticks (j : Nat) :
    (t.ticks clock between j).2.lastTick =
      some (clock 0 + t.through clock between j * interval) := by
  induction j with
  | zero =>
    rw [(ticks_zero ht hb).2]
    simp [through]
  | succ j ih =>
    have hlast := (lastTick_editAll (hb (j + 1))).trans ih
    rw [ticks, (tick_of_lastTick hlast _).2, through_succ, ticks]
    push_cast
    rfl

theorem ticks_succ_iff (j : Nat) :
    (t.ticks clock between (j + 1)).1 = true ↔
      (t.through clock between j : Int) < elapsed clock (j + 1) :=
  (tick_of_lastTick ((lastTick_editAll (hb (j + 1))).trans (lastTick_ticks ht hb j)) _).1

theorem through_succ_of_le {j : Nat}
    (hle : (t.through clock between j : Int) ≤ elapsed clock (j + 1)) :
    (t.through clock between (j + 1) : Int) =
      min ((t.through clock between j : Int) + 1) (elapsed clock (j + 1)) := by
  have hiff : (t.ticks clock between (j + 1)).1 = true ↔ _ := ticks_succ_iff ht hb j
  rw [through_succ]
  split
  · rename_i hopen
    have := hiff.1 hopen
    omega
  · rename_i hclosed
    have := mt hiff.2 hclosed
    omega

/-- No more ticks than intervals: this is the invariant that the closed form rests on. -/
theorem through_le_elapsed (hc : Monotone clock) (j : Nat) :
    (t.through clock between j : Int) ≤ elapsed clock j := by
  induction j with
  | zero => simp [through, elapsed_zero]
  | succ j ih =>
    rw [through_succ_of_le ht hb (ih.trans (elapsed_mono hc (Nat.le_add_right j 1)))]
    exact min_le_right _ _

/-- The recursion that the closed form solves. -/
theorem through_succ_eq_min (hc : Monotone clock) (j : Nat) :
    (t.through clock between (j + 1) : Int) =
      min ((t.through clock between j : Int) + 1) (elapsed clock (j + 1)) :=
  through_succ_of_le ht hb
    ((through_le_elapsed ht hb hc j).trans (elapsed_mono hc (Nat.le_add_right j 1)))

theorem isLeast_through (hc : Monotone clock) (j : Nat) :
    IsLeast {n : Int | ∃ i ≤ j, n = elapsed clock i + (j - i)}
      (t.through clock between j) := by
  induction j with
  | zero =>
    refine ⟨⟨0, Nat.le_refl 0, by simp [through, elapsed_zero]⟩, ?_⟩
    rintro n ⟨i, hi, rfl⟩
    obtain rfl := Nat.le_zero.1 hi
    simp [through, elapsed_zero]
  | succ j ih =>
    rw [through_succ_eq_min ht hb hc]
    obtain ⟨⟨i, hi, hattained⟩, hlower⟩ := ih
    constructor
    · rcases min_choice ((t.through clock between j : Int) + 1)
        (elapsed clock (j + 1)) with h | h
      · exact ⟨i, Nat.le_succ_of_le hi, by rw [h, hattained]; push_cast; ring⟩
      · exact ⟨j + 1, Nat.le_refl _, by rw [h]; push_cast; ring⟩
    · rintro n ⟨i, hi, rfl⟩
      rcases Nat.lt_or_ge j i with hlast | hearlier
      · obtain rfl : i = j + 1 := by omega
        rw [Int.sub_self, Int.add_zero]
        exact min_le_right _ _
      · have hprevious := hlower ⟨i, hearlier, rfl⟩
        refine (min_le_left _ _).trans ?_
        push_cast
        omega

/-- While the clock stands still, each tick works one interval of the backlog off. -/
theorem through_add_of_still (hc : Monotone clock) {j r : Nat} (h : clock (j + r) = clock j) :
    (t.through clock between (j + r) : Int) =
      min ((t.through clock between j : Int) + r) (elapsed clock j) := by
  induction r with
  | zero =>
    have := through_le_elapsed ht hb hc j
    simp only [Nat.add_zero]
    omega
  | succ r ih =>
    have hle : clock j ≤ clock (j + r) := hc (Nat.le_add_right j r)
    have hge : clock (j + r) ≤ clock (j + (r + 1)) := hc (by omega)
    have hstill : elapsed clock (j + r + 1) = elapsed clock j := by
      unfold elapsed
      rw [Nat.add_assoc, h]
    rw [← Nat.add_assoc, through_succ_eq_min ht hb hc, ih (by omega), hstill]
    push_cast
    omega

end

/-- The closed form of the gate, for timers that have not ticked since power-on or a reset and
ticks at clock readings that never go back, with any assignments in between. The number of ticks
after the first that went through is the least of the intervals passed at a tick and the ticks
since. The reference has moved by as many intervals and is not ahead of the clock, and no more ticks
go through than intervals have begun. Each takes one off a counter with something left, and any
other tick nothing, so that no more is taken off a counter than intervals have begun. While the
clock stands still, exactly the backlog goes through. -/
theorem ticks_through_closed_form (ht : t.lastTick = none)
    (hb : ∀ i, ∀ e ∈ between i, e.Assigns) (hc : Monotone clock) (j : Nat) :
    (t.ticks clock between 0).1 = true ∧
    IsLeast {n : Int | ∃ i ≤ j, n = elapsed clock i + (j - i)} (t.through clock between j) ∧
    (t.ticks clock between j).2.lastTick =
      some (clock 0 + t.through clock between j * interval) ∧
    clock 0 + t.through clock between j * interval ≤ clock j ∧
    ((List.range (j + 1)).countP (fun i => (t.ticks clock between i).1) : Int) ≤
      1 + elapsed clock j ∧
    (∀ c : Counter,
      (∀ i, (c.value (t.ticks clock between i).2).toNat =
        (c.value (t.beforeTick clock between i)).toNat -
          if (t.ticks clock between i).1 then 1 else 0) ∧
      t.takenUpTo clock between c j ≤ 1 + elapsed clock j) ∧
    ∀ r : Nat, 1 ≤ r → clock (j + r) = clock j →
      ((t.ticks clock between (j + r)).1 = true ↔
        (r : Int) ≤ elapsed clock j - t.through clock between j) := by
  have hfirst : (t.ticks clock between 0).1 = true := (ticks_zero ht hb).1
  have hle : (t.through clock between j : Int) ≤ elapsed clock j := through_le_elapsed ht hb hc j
  have hall : (List.range (j + 1)).countP (fun i => (t.ticks clock between i).1) =
      t.through clock between j + 1 := by
    rw [List.range_eq_range', List.range'_succ]
    simp [through, hfirst]
  refine ⟨hfirst, isLeast_through ht hb hc j, lastTick_ticks ht hb j, ?_, by omega, ?_, ?_⟩
  · have := (Int.le_ediv_iff_mul_le (show 0 < interval by decide)).1 hle
    omega
  · intro c
    have htaken : t.takenUpTo clock between c j ≤ 1 + t.through clock between j := takenUpTo_le c j
    exact ⟨value_ticks c, by omega⟩
  · intro r hr hstill
    obtain ⟨s, rfl⟩ : ∃ s, r = s + 1 := ⟨r - 1, by omega⟩
    -- All readings from tick `j` on are the same, so the tick before has worked `s` intervals off.
    have hlow : clock j ≤ clock (j + s) := hc (Nat.le_add_right j s)
    have hhigh : clock (j + s) ≤ clock (j + (s + 1)) := hc (by omega)
    have hs : (t.through clock between (j + s) : Int) = _ :=
      through_add_of_still ht hb hc (by omega)
    have helapsed : elapsed clock (j + s + 1) = elapsed clock j := by
      rw [elapsed, Nat.add_assoc, hstill, elapsed]
    rw [← Nat.add_assoc, ticks_succ_iff ht hb, hs, helapsed]
    push_cast
    omega

/-- A clock that is three intervals on when it is read again, and then stands still. -/
def lateClock (i : Nat) : Int := if i = 0 then -5 else 50000000

theorem monotone_lateClock : Monotone lateClock := by
  intro i j hij
  unfold lateClock
  split <;> split <;> omega

/-- The second of these ticks leaves a backlog of two, which the two ticks after it work off. By the
fourth the delay has lost all that it may. -/
theorem backlog_of_late_tick :
    initial.through lateClock (fun _ => [.setDelay 300]) 1 = 1 ∧ elapsed lateClock 1 = 3 ∧
    (initial.ticks lateClock (fun _ => [.setDelay 300]) (1 + 2)).1 = true ∧
    ¬(initial.ticks lateClock (fun _ => [.setDelay 300]) (1 + 3)).1 = true ∧
    initial.takenUpTo lateClock (fun _ => [.setDelay 300]) .delay 3 = 1 + elapsed lateClock 3 ∧
    initial.takenUpTo lateClock (fun _ => [.setDelay 300]) .delay 4 ≤ 1 + elapsed lateClock 4 ∧
    (initial.ticks lateClock (fun _ => [.setDelay 300]) 3).2.delay.toNat = 43 := by
  have hedits : ∀ i : Nat, ∀ e ∈ (fun _ => [.setDelay 300] : Nat → List Edit) i, e.Assigns := by
    intro i e he
    rw [List.mem_singleton.1 he]
    trivial
  have hthrough : initial.through lateClock (fun _ => [.setDelay 300]) 1 = 1 := by decide
  have helapsed : elapsed lateClock 1 = 3 := by decide
  obtain ⟨-, -, -, -, -, -, hbacklog⟩ :=
    ticks_through_closed_form (t := initial) rfl hedits monotone_lateClock 1
  obtain ⟨-, -, -, -, -, hcounters, -⟩ :=
    ticks_through_closed_form (t := initial) rfl hedits monotone_lateClock 4
  obtain ⟨hvalue, htaken⟩ := hcounters .delay
  rw [hthrough, helapsed] at hbacklog
  have hopen : (initial.ticks lateClock (fun _ => [.setDelay 300]) (1 + 2)).1 = true :=
    (hbacklog 2 (by decide) rfl).2 (by decide)
  have hclosed : ¬(initial.ticks lateClock (fun _ => [.setDelay 300]) (1 + 3)).1 = true :=
    fun hopen => absurd ((hbacklog 3 (by decide) rfl).1 hopen) (by decide)
  have hdelay : (initial.ticks lateClock (fun _ => [.setDelay 300]) 3).2.delay.toNat = _ :=
    hvalue 3
  rw [hopen] at hdelay
  exact ⟨hthrough, helapsed, hopen, hclosed, by decide, htaken, hdelay⟩

end ChipVm.Timers
