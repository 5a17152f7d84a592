/-
The screen: 32 rows of 64 pixels. A sprite is drawn by toggling pixels, each byte one row with the
most significant bit leftmost, and wraps around on both edges.
-/
import ChipVm.Byte

namespace ChipVm

/-- The pixels, row by row. -/
structure Screen where
  rows : Vector (Vector Bool 64) 32
  deriving DecidableEq

namespace Screen

/-- No pixel lit. -/
def blank : Screen := ⟨Vector.replicate 32 (Vector.replicate 64 false)⟩

instance : Inhabited Screen := ⟨blank⟩

/-- The pixel in a column and a row of the grid. -/
def get (s : Screen) (c : Fin 64) (r : Fin 32) : Bool := s.rows[r][c]

theorem ext {s t : Screen} (h : ∀ c r, s.get c r = t.get c r) : s = t := by
  obtain ⟨a⟩ := s
  obtain ⟨b⟩ := t
  congr 1
  exact Vector.ext fun r hr => Vector.ext fun c hc => h ⟨c, hc⟩ ⟨r, hr⟩

theorem get_set_row (s : Screen) (q : Fin 32) (l : Vector Bool 64) (c : Fin 64) (r : Fin 32) :
    get ⟨s.rows.set q l⟩ c r = if q = r then l[c] else s.get c r := by
  simp only [get, Fin.getElem_fin, Vector.getElem_set, Fin.val_inj]
  split <;> rfl

/-- The column that an integer falls on. -/
def column (x : Int) : Fin 64 := ⟨(x % 64).toNat, by omega⟩

/-- The row that an integer falls on. -/
def row (y : Int) : Fin 32 := ⟨(y % 32).toNat, by omega⟩

theorem column_eq_iff {x : Int} {c : Fin 64} : column x = c ↔ x % 64 = c.val := by
  simp only [column, Fin.ext_iff]
  omega

theorem row_eq_iff {y : Int} {r : Fin 32} : row y = r ↔ y % 32 = r.val := by
  simp only [row, Fin.ext_iff]
  omega

/-- The pixel at any two coordinates. -/
def pixel (s : Screen) (x y : Int) : Bool := s.get (column x) (row y)

/-- How many pixels are lit. -/
def litCount (s : Screen) : Nat := (s.rows.toList.flatMap Vector.toList).count true

@[simp] theorem get_blank (c : Fin 64) (r : Fin 32) : blank.get c r = false := by
  simp [get, blank]

/-! ## Drawing -/

/-- A column beyond the signed 64-bit range. -/
structure ColumnOverflow where
  column : Int
  deriving DecidableEq

/-- Whether a column is in the signed 64-bit range. -/
def inRange (x : Int) : Bool := -0x8000000000000000 ≤ x && x < 0x8000000000000000

/-- The bit that stands `j` places right of the leftmost one of a byte. -/
def bitAt (bits : UInt8) (j : Fin 8) : Bool := bits.toNat.testBit (7 - j.val)

/-- The column `j` places right of `x`; the sum is one of signed 64-bit integers and may wrap. -/
def columnAt (x : Int) (j : Fin 8) : Fin 64 := column ((x + j.val).bmod 0x10000000000000000)

/-- Draws one byte: whether a lit pixel went out, and the screen after it. The eight pixels are
all read before the first is written. -/
def drawByte (s : Screen) (x y : Int) (bits : UInt8) : Bool × Screen :=
  let current := s.rows[row y]
  let hit := (List.finRange 8).any fun j => current[columnAt x j] && bitAt bits j
  let drawn := (List.finRange 8).foldl
    (fun l j => l.set (columnAt x j) (current[columnAt x j] ^^ bitAt bits j)) current
  (hit, ⟨s.rows.set (row y) drawn⟩)

/-- What each column of a line holds after values have been written, if what is written depends
only on the column. -/
theorem getElem_foldl_set (f : Fin 8 → Fin 64) (g : Fin 64 → Bool) (js : List (Fin 8))
    (l : Vector Bool 64) (c : Fin 64) :
    (js.foldl (fun l j => l.set (f j) (g (f j))) l)[c] =
      if js.any (f · == c) then g c else l[c] := by
  induction js generalizing l with
  | nil => rfl
  | cons j js ih =>
    rw [List.foldl_cons, ih, List.any_cons]
    by_cases hc : f j = c
    · subst hc
      simp
    · rw [beq_eq_false_iff_ne.2 hc, Bool.false_or]
      simp [Fin.val_inj, hc]

/-- Draws a sprite of any integers, each stored as a byte, one a row and downwards: whether a lit
pixel went out on the way, and the screen after it. A byte that is zero touches nothing; any other
needs a column in range. What was drawn before one fails stays. -/
def draw (s : Screen) (x y : Int) : List Int → Except ColumnOverflow Bool × Screen
  | [] => (.ok false, s)
  | v :: rest =>
    if lowByte v = 0 then s.draw x (y + 1) rest
    else if inRange x then
      let (hit, drawn) := s.drawByte x y (lowByte v)
      let (hits, drawn) := drawn.draw x (y + 1) rest
      (hits.map (hit || ·), drawn)
    else (.error ⟨x⟩, s)

/-- A column in range is never refused. -/
theorem draw_of_inRange (s : Screen) {x : Int} (hx : inRange x = true) (y : Int)
    (sprite : List Int) : ∃ hit, (s.draw x y sprite).1 = .ok hit := by
  induction sprite generalizing s y with
  | nil => exact ⟨false, rfl⟩
  | cons v rest ih =>
    rw [draw, if_pos hx]
    split
    · exact ih s (y + 1)
    · obtain ⟨hits, h⟩ := ih (s.drawByte x y (lowByte v)).2 (y + 1)
      exact ⟨(s.drawByte x y (lowByte v)).1 || hits, by simp [h, Except.map]⟩

/-! ## Edits -/

/-- A change that a host may make. -/
inductive Edit where
  | draw (x y : Int) (sprite : List Int)
  | clear
  deriving DecidableEq

/-- Makes a change; drawing tells whether a lit pixel went out. -/
def edit (s : Screen) : Edit → Except ColumnOverflow (Option Bool) × Screen
  | .draw x y sprite =>
    let (hit, drawn) := s.draw x y sprite
    (hit.map some, drawn)
  | .clear => (.ok none, blank)

end Screen

end ChipVm
