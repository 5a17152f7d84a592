/-
How a value is shown inside a message: the literals `None`, `True` and `False`, quoted texts, lists
in brackets and objects in braces.
-/
import ChipVm.Json.Basic
import ChipVm.Number.Shortest
import ChipVm.Text.Quoted

namespace ChipVm.Json

mutual

/-- A value as a literal. -/
def literal : Json → Text
  | .null => "None"
  | .bool true => "True"
  | .bool false => "False"
  | .int n => Digits.decimal n
  | .real x => x.text "nan" "inf"
  | .str t => t.quoted
  | .arr items => "[" ++ Text.join ", " (itemLiterals items) ++ "]"
  | .obj fields => "\x7b" ++ Text.join ", " (fieldLiterals fields) ++ "\x7d"

/-- The literals of the elements of a list. -/
def itemLiterals : List Json → List Text
  | [] => []
  | v :: vs => literal v :: itemLiterals vs

/-- The fields of an object, each a quoted name and a literal. -/
def fieldLiterals : Fields → List Text
  | [] => []
  | (name, v) :: fields => (name.quoted ++ ": " ++ literal v) :: fieldLiterals fields

end

/-- The name of the kind of a value, as messages give it. -/
def kindName : Json → String
  | .null => "NoneType"
  | .bool _ => "bool"
  | .int _ => "int"
  | .real _ => "float"
  | .str _ => "str"
  | .arr _ => "list"
  | .obj _ => "dict"

end ChipVm.Json
