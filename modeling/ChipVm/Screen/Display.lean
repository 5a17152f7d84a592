/-
The grids of pixels that a framebuffer and its readers hold, each known by its place. A view holds
the framebuffer's own grid and sees what is drawn later; a copy is a grid of its own.
-/
import ChipVm.Screen.Pixels

namespace ChipVm

/-- A framebuffer among all grids. -/
structure Display where
  grids : Array Screen
  /-- The place of the framebuffer's grid. -/
  own : Fin grids.size

namespace Display

/-- A new framebuffer, which nobody reads yet. -/
def new : Display := ⟨#[.blank], ⟨0, Nat.zero_lt_one⟩⟩

/-- What the framebuffer shows. -/
def shown (d : Display) : Screen := d.grids[d.own]

/-- The grid at a place. -/
def grid? (d : Display) (place : Nat) : Option Screen := d.grids[place]?

/-- The place that a view of the framebuffer reads at. -/
def view (d : Display) : Nat := d.own

/-- Draws on the framebuffer's grid or clears it; drawing tells whether a lit pixel went out. -/
def edit (d : Display) (e : Screen.Edit) : Except Screen.ColumnOverflow (Option Bool) × Display :=
  let (result, drawn) := d.shown.edit e
  (result, ⟨d.grids.set d.own drawn, d.own.cast (by simp)⟩)

/-- Copies the framebuffer's grid: the place of the copy, and the grids with it. -/
def copy (d : Display) : Nat × Display :=
  (d.grids.size, ⟨d.grids.push d.shown, d.own.castLE (by simp)⟩)

end Display

end ChipVm
