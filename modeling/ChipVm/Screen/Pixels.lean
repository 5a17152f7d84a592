/-
The screen as one sequence of 2048 pixels, row by row: access by any index, slices, counting and
searching. A negative index counts from the end.
-/
import ChipVm.Screen.Basic
import ChipVm.Text.Basic

namespace ChipVm

/-! ## Slices -/

/-- A slice of a sequence; an absent bound is the end of the sequence that the step comes from or
goes to. -/
structure Slice where
  start : Option Int
  stop : Option Int
  step : Option Int
  deriving DecidableEq

namespace Slice

/-- A bound cut to the range from `low` to `high`, counted from the end if it is negative. -/
def clampBound (length low high : Int) (bound : Int) : Int :=
  if bound < 0 then max (bound + length) low else min bound high

/-- The first position and the position before which a slice with a step ends. -/
def bounds (s : Slice) (length : Nat) (step : Int) : Int × Int :=
  if 0 < step then
    ((s.start.map (clampBound length 0 length)).getD 0,
      (s.stop.map (clampBound length 0 length)).getD length)
  else
    ((s.start.map (clampBound length (-1) (length - 1))).getD (length - 1),
      (s.stop.map (clampBound length (-1) (length - 1))).getD (-1))

/-- How many steps lead from `start` to before `stop`. -/
def stepCount (start stop step : Int) : Nat :=
  if 0 < step then
    if start < stop then ((stop - start - 1) / step + 1).toNat else 0
  else
    if stop < start then ((start - stop - 1) / (-step) + 1).toNat else 0

/-- The positions of a slice of a sequence of a given length, for a step that is not zero. -/
def positions (s : Slice) (length : Nat) : Option (List Int) :=
  let step := s.step.getD 1
  if step = 0 then none
  else
    let (start, stop) := s.bounds length step
    some ((List.range (stepCount start stop step)).map fun (k : Nat) => start + k * step)

end Slice

/-! ## Pixels -/

/-- Why a reading of the pixels is refused. -/
inductive PixelError where
  | indexOutOfRange
  | zeroStep
  | noSuchPixel
  deriving DecidableEq

/-- The text of a refusal. -/
def PixelError.message : PixelError → Text
  | .indexOutOfRange => "pixel index out of range"
  | .zeroStep => "slice step cannot be zero"
  | .noSuchPixel => ""

namespace Screen

/-- How many pixels there are. -/
abbrev size : Nat := 2048

/-- The pixel at a position. -/
def at? (s : Screen) (i : Nat) : Option Bool :=
  if h : i < 2048 then some (s.get ⟨i % 64, by omega⟩ ⟨i / 64, by omega⟩) else none

/-- The pixels in order. -/
def pixels (s : Screen) : List Bool := s.rows.toList.flatMap Vector.toList

/-- The pixel at any index from `-2048` to `2047`. -/
def pixelAt (s : Screen) (i : Int) : Except PixelError Bool :=
  let i := if i < 0 then i + 2048 else i
  if i < 0 then .error .indexOutOfRange
  else
    match s.at? i.toNat with
    | some b => .ok b
    | none => .error .indexOutOfRange

/-- The pixels of a slice. -/
def slicePixels (s : Screen) (slice : Slice) : Except PixelError (List Bool) :=
  match slice.positions 2048 with
  | some ps => .ok (ps.map fun i => (s.at? i.toNat).getD false)
  | none => .error .zeroStep

/-- How many pixels have a value. -/
def countPixels (s : Screen) (value : Bool) : Nat := s.pixels.count value

/-- The pixels from the last to the first, each read at its position. -/
def reversed (s : Screen) : List Bool := (List.range size).reverse.filterMap s.at?

/-- The first position of a pixel with a value, when they are read one position after another. -/
def indexOfPixel (s : Screen) (value : Bool) : Except PixelError Nat :=
  ((List.range size).find? (s.at? · == some value)).elim (.error .noSuchPixel) .ok

/-- The positions of the lit pixels. -/
def litPositions (s : Screen) : List Nat :=
  ((s.pixels.zipIdx).filter (·.1)).map (·.2)

/-- The positions of the lit pixels counted from the end, in that order. -/
def litPositionsReversed (s : Screen) : List Nat :=
  ((s.reversed.zipIdx).filter (·.1)).map (·.2)

end Screen

end ChipVm
