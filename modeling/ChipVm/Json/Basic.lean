/-
JSON values. Integers and reals are kept apart, and an object keeps its fields in the order in which
their names were first given.
-/
import ChipVm.Number.Binary64
import ChipVm.Text.Basic

namespace ChipVm

/-- A JSON value. -/
inductive Json where
  | null
  | bool (value : Bool)
  | int (value : Int)
  | real (value : Binary64)
  | str (value : Text)
  | arr (items : List Json)
  | obj (fields : List (Text × Json))
  deriving Inhabited

namespace Json

/-- The fields of an object. -/
abbrev Fields := List (Text × Json)

namespace Fields

/-- The value of the field called `name`. -/
def get? : Fields → Text → Option Json
  | [], _ => none
  | (n, v) :: rest, name => if n = name then some v else get? rest name

/-- Gives the field called `name` a value: in its place if it is there, at the end if it is not. -/
def put : Fields → Text → Json → Fields
  | [], name, value => [(name, value)]
  | (n, v) :: rest, name, value =>
    if n = name then (n, value) :: rest else (n, v) :: put rest name value

theorem get?_put (fields : Fields) (name other : Text) (value : Json) :
    get? (put fields name value) other =
      if name = other then some value else get? fields other := by
  induction fields with
  | nil => simp [put, get?]
  | cons f rest ih =>
    obtain ⟨n, v⟩ := f
    by_cases h : n = name
    · subst h; by_cases h' : n = other <;> simp [put, get?, h']
    · by_cases h' : n = other
      · subst h'; simp [put, get?, h, Ne.symm h]
      · simp [put, get?, h, h', ih]

end Fields

/-- The field called `name` of an object; no other value has fields. -/
def field? (j : Json) (name : Text) : Option Json :=
  match j with
  | .obj fields => Fields.get? fields name
  | _ => none

end Json

end ChipVm
