/-
What the timers hold, told by the history of their edits, whatever the clock does. The reference is
the reading of the first tick since the last reset, one interval later for each tick that has gone
through since then. A counter is what was assigned to it last, less one for each tick that has gone
through since then, as long as there is something left of it.
-/
import ChipVm.Proofs.Timers.Gate
import Mathlib.Data.List.DropRight
import Mathlib.Data.List.Induction

namespace ChipVm.Timers

/-! ## Histories of edits -/

/-- How many ticks of some edits go through. -/
def opened (t : Timers) : List Edit → Nat
  | [] => 0
  | e :: es => (if (t.edit e).1 = some true then 1 else 0) + (t.edit e).2.opened es

/-- What comes after the last reset of some edits, or all of them if there is none. -/
def sinceReset (es : List Edit) : List Edit := es.rtakeWhile (· ≠ .reset)

/-- The assignment of a counter. -/
def Counter.assign (v : Int) : Counter → Edit
  | .delay => .setDelay v
  | .sound => .setSound v

variable {t : Timers} {es : List Edit} {e : Edit} {c : Counter} {now last : Int}

@[simp] theorem sinceReset_reset (es : List Edit) : sinceReset (es ++ [.reset]) = [] :=
  List.rtakeWhile_concat_neg _ _ _ (by simp)

theorem sinceReset_concat (es : List Edit) (he : e ≠ .reset) :
    sinceReset (es ++ [e]) = sinceReset es ++ [e] :=
  List.rtakeWhile_concat_pos _ _ _ (by simpa using he)

theorem editAll_concat (t : Timers) (es : List Edit) (e : Edit) :
    t.editAll (es ++ [e]) = ((t.editAll es).edit e).2 := by
  rw [editAll_append]
  rfl

/-! ## One edit -/

/-- A tick that goes through leaves the reference at the clock reading or, if it comes late, before
it. -/
theorem lastTick_le_of_tick (h : (t.tick now).1 = true) :
    ∃ last, (t.tick now).2.lastTick = some last ∧ last ≤ now := by
  unfold tick at h ⊢
  split
  · rename_i at' hnext
    refine ⟨at', rfl, ?_⟩
    unfold nextTick at hnext
    split at hnext
    · cases hnext
      exact Int.le_refl _
    · split at hnext
      · rename_i last hopen
        cases hnext
        omega
      · cases hnext
  · rename_i hnext
    rw [hnext] at h
    cases h

theorem tick_of_not_through (h : (t.tick now).1 = false) : (t.tick now).2 = t := by
  unfold tick at h ⊢
  split
  · rename_i hnext
    rw [hnext] at h
    cases h
  · rfl

theorem lastTick_tick_ne_none (t : Timers) (now : Int) : (t.tick now).2.lastTick ≠ none := by
  cases hopen : (t.tick now).1 with
  | true =>
    obtain ⟨last, hlast, -⟩ := lastTick_le_of_tick hopen
    simp [hlast]
  | false =>
    rw [tick_of_not_through hopen]
    intro hnone
    rw [(tick_of_lastTick_none hnone now).1] at hopen
    cases hopen

/-- Unless it is a reset, an edit moves the reference by one interval if it is a tick that goes
through, and not at all if not. -/
theorem lastTick_edit {start moved : Int} (h : t.lastTick = some (start + moved * interval))
    (he : e ≠ .reset) :
    (t.edit e).2.lastTick =
      some (start + (moved + if (t.edit e).1 = some true then 1 else 0) * interval) := by
  cases e with
  | tick now => simpa [edit] using (tick_of_lastTick h now).2
  | setDelay v | setSound v => simpa [edit, setDelay, setSound] using h
  | reset => exact absurd rfl he

/-- Unless it assigns or resets it, an edit takes one off a counter if it is a tick that goes
through, and nothing if not. -/
theorem value_edit (he : e ≠ .reset) (hassign : ∀ v, e ≠ c.assign v) :
    (c.value (t.edit e).2).toNat =
      (c.value t).toNat - if (t.edit e).1 = some true then 1 else 0 := by
  cases e with
  | tick now => simpa only [edit, Option.some.injEq] using value_tick t now c
  | setDelay v =>
    cases c with
    | delay => exact absurd rfl (hassign v)
    | sound => rfl
  | setSound v =>
    cases c with
    | delay => rfl
    | sound => exact absurd rfl (hassign v)
  | reset => exact absurd rfl he

/-! ## The reference -/

/-- Without a reset, the reference moves by one interval for each tick that goes through. -/
theorem lastTick_editAll_of_not_reset {start moved : Int}
    (h : t.lastTick = some (start + moved * interval)) (hes : .reset ∉ es) :
    (t.editAll es).lastTick = some (start + (moved + t.opened es) * interval) := by
  induction es generalizing t moved with
  | nil => simpa [editAll, opened] using h
  | cons e es ih =>
    rw [List.mem_cons, not_or] at hes
    rw [editAll, opened, ih (lastTick_edit h (Ne.symm hes.1)) hes.2]
    push_cast
    rw [add_assoc]

theorem lastTick_eq_none_iff (es : List Edit) :
    (initial.editAll es).lastTick = none ↔ ∀ now, .tick now ∉ sinceReset es := by
  induction es using List.reverseRecOn with
  | nil => simp [sinceReset, editAll, initial]
  | append_singleton es e ih =>
    rw [editAll_concat]
    cases e with
    | tick now =>
      refine iff_of_false (lastTick_tick_ne_none _ now) fun hno => hno now ?_
      simp [sinceReset_concat]
    | setDelay v | setSound v =>
      rw [sinceReset_concat es (by simp)]
      simpa [edit, setDelay, setSound] using ih
    | reset => simp [edit, initial]

/-- The reference is never ahead of all clock readings. -/
theorem exists_tick_of_lastTick (h : (initial.editAll es).lastTick = some last) :
    ∃ now, .tick now ∈ sinceReset es ∧ last ≤ now := by
  induction es using List.reverseRecOn generalizing last with
  | nil => cases h
  | append_singleton es e ih =>
    rw [editAll_concat] at h
    have hearlier (he : e ≠ .reset) (h : (initial.editAll es).lastTick = some last) :
        ∃ now, .tick now ∈ sinceReset (es ++ [e]) ∧ last ≤ now := by
      obtain ⟨now, hmem, hle⟩ := ih h
      rw [sinceReset_concat es he]
      exact ⟨now, List.mem_append_left _ hmem, hle⟩
    cases e with
    | tick now =>
      simp only [edit] at h
      cases hopen : ((initial.editAll es).tick now).1 with
      | false =>
        rw [tick_of_not_through hopen] at h
        exact hearlier (by simp) h
      | true =>
        obtain ⟨at', hat, hle⟩ := lastTick_le_of_tick hopen
        cases hat.symm.trans h
        exact ⟨now, by simp [sinceReset_concat], hle⟩
    | setDelay v | setSound v => exact hearlier (by simp) h
    | reset => cases h

/-! ## The counters -/

/-- Without a reset and an assignment, a counter goes down by one for each tick that goes through,
until it is zero. -/
theorem value_editAll (hes : .reset ∉ es) (hassign : ∀ v, c.assign v ∉ es) :
    (c.value (t.editAll es)).toNat = (c.value t).toNat - t.opened es := by
  induction es generalizing t with
  | nil => rfl
  | cons e es ih =>
    simp only [List.mem_cons, not_or] at hes hassign
    rw [editAll, opened, ih hes.2 fun v => (hassign v).2,
      value_edit (Ne.symm hes.1) fun v => Ne.symm (hassign v).1, Nat.sub_sub]

theorem editAll_sinceReset (es : List Edit) :
    initial.editAll (sinceReset es) = initial.editAll es := by
  induction es using List.reverseRecOn with
  | nil => rfl
  | append_singleton es e ih =>
    by_cases he : e = .reset
    · subst he
      rw [sinceReset_reset, editAll_concat]
      rfl
    · rw [sinceReset_concat es he, editAll_concat, editAll_concat, ih]

theorem reset_notMem_sinceReset (es : List Edit) : .reset ∉ sinceReset es := by
  intro h
  simpa using List.mem_rtakeWhile_imp h

/-- A counter that has not been assigned since the last reset is zero. -/
theorem value_of_not_assigned (h : ∀ v, c.assign v ∉ sinceReset es) :
    c.value (initial.editAll es) = 0 := by
  have hstart : c.value initial = 0 := by cases c <;> rfl
  have hvalue := value_editAll (t := initial) (reset_notMem_sinceReset es) h
  rw [editAll_sinceReset, hstart] at hvalue
  apply UInt8.toNat_inj.1
  simpa using hvalue

/-- A counter is what was assigned to it last, less the ticks that have gone through since. -/
theorem value_of_assigned (t : Timers) (v : Int) (hes : .reset ∉ es)
    (hassign : ∀ w, c.assign w ∉ es) :
    ((c.value ((t.edit (c.assign v)).2.editAll es)).toNat : Int) =
      max (v % 256 - (t.edit (c.assign v)).2.opened es) 0 := by
  have hassigned : c.value (t.edit (c.assign v)).2 = lowByte v := by cases c <;> rfl
  have hlow := toNat_lowByte v
  rw [value_editAll hes hassign, hassigned]
  omega

/-! ## Bookkeeping -/

/-- What timers hold after a history of edits: each field told by the ticks and the assignments of
the history. -/
structure Bookkeeping (es : List Edit) : Prop where
  /-- There is a reference if and only if there has been a tick since the last reset. -/
  lastTick_none : (initial.editAll es).lastTick = none ↔ ∀ now, .tick now ∉ sinceReset es
  /-- It is the reading of the first of these, and one interval on for each later one that has gone
  through. -/
  lastTick_some : ∀ {before start after}, es = before ++ .tick start :: after → .reset ∉ after →
    (∀ now, .tick now ∉ sinceReset before) →
    (initial.editAll es).lastTick =
      some (start + (initial.editAll (before ++ [.tick start])).opened after * interval)
  /-- Each tick that has gone through was not ahead of its clock reading. -/
  reading : ∀ {before now after}, es = before ++ .tick now :: after →
    ((initial.editAll before).tick now).1 = true →
    ∃ last, (initial.editAll (before ++ [.tick now])).lastTick = some last ∧ last ≤ now
  /-- Without a reset the reference does not go back. -/
  lastTick_mono : ∀ {before after last}, es = before ++ after → .reset ∉ after →
    (initial.editAll before).lastTick = some last →
    ∃ later, (initial.editAll es).lastTick = some later ∧ last ≤ later
  /-- It is not ahead of all clock readings. -/
  lastTick_le : ∀ {last}, (initial.editAll es).lastTick = some last →
    ∃ now, .tick now ∈ sinceReset es ∧ last ≤ now
  /-- A counter is what was assigned to it last, less the ticks that have gone through since. -/
  assigned : ∀ {c : Counter} {before v after}, es = before ++ c.assign v :: after →
    .reset ∉ after → (∀ w, c.assign w ∉ after) →
    ((c.value (initial.editAll es)).toNat : Int) =
      max (v % 256 - (initial.editAll (before ++ [c.assign v])).opened after) 0
  /-- It is zero if nothing has been assigned to it since the last reset. -/
  unassigned : ∀ {c : Counter}, (∀ v, c.assign v ∉ sinceReset es) →
    c.value (initial.editAll es) = 0
  /-- A tick that does not go through changes nothing. -/
  refused : ∀ {now}, ((initial.editAll es).tick now).1 = false →
    ((initial.editAll es).tick now).2 = initial.editAll es

/-- The books are right after any edits, whatever the clock reads at the ticks among them. -/
theorem bookkeeping_editAll (es : List Edit) : Bookkeeping es where
  lastTick_none := lastTick_eq_none_iff es
  lastTick_some := by
    rintro before start after rfl hafter hfirst
    have hnone := (lastTick_eq_none_iff before).2 hfirst
    have hstart : (initial.editAll (before ++ [.tick start])).lastTick =
        some (start + 0 * interval) := by
      rw [editAll_concat]
      simpa [edit] using (tick_of_lastTick_none hnone start).2
    rw [List.append_cons, editAll_append, lastTick_editAll_of_not_reset hstart hafter, zero_add]
  reading := by
    rintro before now after - hopen
    rw [editAll_concat]
    exact lastTick_le_of_tick hopen
  lastTick_mono := by
    rintro before after last rfl hafter hlast
    have hstart : (initial.editAll before).lastTick = some (last + 0 * interval) := by
      simpa using hlast
    have hlater := lastTick_editAll_of_not_reset hstart hafter
    rw [← editAll_append] at hlater
    have hmoved : 0 ≤ ((initial.editAll before).opened after : Int) * interval :=
      Int.mul_nonneg (Int.natCast_nonneg _) (by decide)
    exact ⟨_, hlater, by rw [zero_add]; omega⟩
  lastTick_le := exists_tick_of_lastTick
  assigned := by
    rintro c before v after rfl hafter hassign
    rw [List.append_cons, editAll_append, editAll_concat]
    exact value_of_assigned _ v hafter hassign
  unassigned := value_of_not_assigned
  refused := tick_of_not_through

/-- The clock goes back at the second tick and far on at the third and fourth. -/
example : initial.editAll [.setSound 9, .tick 5, .setDelay (-1), .tick (-90), .tick 50000003,
    .tick 50000003, .setSound 258] = ⟨253, 2, some 33333337⟩ := by decide

end ChipVm.Timers
