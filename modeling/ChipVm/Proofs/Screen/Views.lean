/-
A framebuffer over a history of draws, clears and copies. A view that was taken at some moment goes
on to show what the framebuffer shows, since both hold one grid; a copy stays what it was, since
nothing is drawn on any other grid.
-/
import ChipVm.Proofs.Screen.Readings
import ChipVm.Screen.Display

namespace ChipVm

/-- The screen after draws and clears. -/
def Screen.editAll (s : Screen) (es : List Screen.Edit) : Screen :=
  es.foldl (fun s e => (s.edit e).2) s

namespace Display

/-! ## Histories -/

/-- What may happen to a framebuffer: it is drawn on or cleared, or copied. -/
inductive Act where
  | edit (e : Screen.Edit)
  | copy

/-- The edit that is made, if one is. -/
def Act.edit? : Act → Option Screen.Edit
  | .edit e => some e
  | .copy => none

/-- What happens to a framebuffer and the other grids. -/
def act (d : Display) : Act → Display
  | .edit e => (d.edit e).2
  | .copy => d.copy.2

def actAll (d : Display) (acts : List Act) : Display := acts.foldl act d

/-! ## One act -/

theorem grid?_view (d : Display) : d.grid? d.view = some d.shown :=
  Array.getElem?_eq_getElem d.own.isLt

theorem grid?_copy (d : Display) : d.copy.2.grid? d.copy.1 = some d.shown :=
  Array.getElem?_push_size

theorem size_le_act (d : Display) (a : Act) : d.grids.size ≤ (d.act a).grids.size := by
  cases a with
  | edit e => exact (Array.size_set d.own.isLt).ge
  | copy => exact (Nat.le_succ _).trans (Array.size_push _).ge

theorem view_act (d : Display) (a : Act) : (d.act a).view = d.view := by
  cases a <;> rfl

theorem shown_act (d : Display) (a : Act) : (d.act a).shown = d.shown.editAll a.edit?.toList := by
  cases a with
  | edit e => exact Array.getElem_set_self d.own.isLt
  | copy => exact Array.getElem_push_lt d.own.isLt

/-- What happens leaves each grid other than the framebuffer's as it is. -/
theorem grid?_act {d : Display} (a : Act) {place : Nat} (hlt : place < d.grids.size)
    (hne : place ≠ d.view) : (d.act a).grid? place = d.grid? place := by
  cases a with
  | edit e => exact Array.getElem?_set_ne d.own.isLt hne.symm
  | copy => exact (Array.getElem?_push_lt hlt).trans (Array.getElem?_eq_getElem hlt).symm

/-! ## Whole histories -/

theorem view_actAll (d : Display) (acts : List Act) : (d.actAll acts).view = d.view := by
  induction acts generalizing d with
  | nil => rfl
  | cons a acts ih => exact (ih (d.act a)).trans (d.view_act a)

theorem shown_actAll (d : Display) (acts : List Act) :
    (d.actAll acts).shown = d.shown.editAll (acts.filterMap Act.edit?) := by
  induction acts generalizing d with
  | nil => rfl
  | cons a acts ih =>
    rw [actAll, List.foldl_cons, ← actAll, ih, shown_act]
    cases a <;> rfl

theorem grid?_actAll {d : Display} (acts : List Act) {place : Nat} (hlt : place < d.grids.size)
    (hne : place ≠ d.view) : (d.actAll acts).grid? place = d.grid? place := by
  induction acts generalizing d with
  | nil => rfl
  | cons a acts ih =>
    have hrest := ih (hlt.trans_le (d.size_le_act a)) (by rwa [view_act])
    exact hrest.trans (grid?_act a hlt hne)

/-- A copy is not the framebuffer's grid. -/
theorem copy_ne_view (d : Display) : d.copy.1 ≠ d.copy.2.view := d.own.isLt.ne'

theorem copy_lt (d : Display) : d.copy.1 < d.copy.2.grids.size :=
  (Nat.lt_succ_self _).trans_eq (Array.size_push _).symm

/-- A view that was taken at any moment agrees at each later one with the framebuffer, which shows
what the draws and clears since then have made of its screen, and a copy from that moment holds the
screen as it was then. -/
theorem readings_agree (past later : List Act) :
    let d := new.actAll past
    let now := d.actAll later
    now.shown = d.shown.editAll (later.filterMap Act.edit?) ∧
    (∃ seen, now.grid? d.view = some seen ∧ Screen.Agrees now.shown seen) ∧
    (d.actAll (.copy :: later)).grid? d.copy.1 = some d.shown := by
  intro d now
  refine ⟨d.shown_actAll later, ⟨now.shown, ?_, now.shown.agrees_self⟩, ?_⟩
  · rw [← d.view_actAll later]
    exact now.grid?_view
  · exact (grid?_actAll later d.copy_lt d.copy_ne_view).trans d.grid?_copy

/-- A framebuffer whose last pixel is lit. -/
def cornered : Display := new.actAll [.edit (.draw 63 31 [0x80])]

theorem cleared_view_and_kept_copy :
    (∃ seen, (cornered.actAll [.copy, .edit .clear]).grid? cornered.view = some seen ∧
      seen.pixelAt (-1) = .ok false ∧ seen.countPixels false = 2048 ∧
      ∃ (ks : List Int) (bs : List Bool), ks[2]? = some 647 ∧
        seen.slicePixels ⟨none, none, some (-700)⟩ = .ok bs ∧ ks.map seen.pixelAt = bs.map .ok) ∧
    ∃ kept, (cornered.actAll [.copy, .edit .clear]).grid? cornered.copy.1 = some kept ∧
      kept.pixel 63 31 = true := by
  obtain ⟨hshown, ⟨seen, hseen, h⟩, -⟩ :=
    readings_agree [.edit (.draw 63 31 [0x80])] [.copy, .edit .clear]
  obtain ⟨-, -, hkept⟩ := readings_agree [.edit (.draw 63 31 [0x80])] [.edit .clear]
  change _ = Screen.blank at hshown
  rw [hshown] at h
  refine ⟨⟨seen, hseen, ?_, ?_, ?_⟩, _, hkept, by decide⟩
  · rw [h.negative (-1) (by decide)]
    exact (h.pixel 63 31).trans (congrArg _ (Screen.get_blank _ _))
  · have hlit : Screen.blank.litCount = 0 := by simp [Screen.litCount_eq_sum]
    have hcount := h.count.2
    omega
  · obtain ⟨ks, bs, hwalks, -, hslice, hks⟩ :=
      h.slice ⟨none, none, some (-700)⟩ (by decide)
    refine ⟨ks, bs, (hwalks 2 647).2 ?_, hslice, hks⟩
    simp [Slice.origin, Slice.Before]

end Display

end ChipVm
