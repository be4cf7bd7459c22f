import LiveBindings.Number.Text
import LiveBindings.Text.Quoted
import LiveBindings.Value.Basic

namespace LiveBindings

def separated (separator : String) : List String → String
  | [] => ""
  | [text] => text
  | text :: rest => text ++ separator ++ separated separator rest

def boolText (value : Bool) : String := if value then "true" else "false"

namespace Value

mutual

def text : Value → String
  | .undefined => "undefined"
  | .null => "null"
  | .boolean b => boolText b
  | .number n => n.text
  | .string s => s
  | .array items => separated "," (itemTexts items)
  | .object _ => "[object Object]"
  | .function name _ =>
    if name = "" then "[Function (anonymous)]" else "[Function: " ++ name ++ "]"

/-- The texts of an array's members, empty for undefined and null. -/
def itemTexts : List Value → List String
  | [] => []
  | item :: rest => (if item.isNullish then "" else text item) :: itemTexts rest

end

end Value

def bracedFields (fields : List (String × String)) : String :=
  "\x7b" ++ separated ", " (fields.map fun field => field.1 ++ ": " ++ field.2) ++ "\x7d"

def recordText (name : String) (fields : List (String × String)) : String :=
  name ++ " \x7b " ++ separated ", " (fields.map fun field => field.1 ++ ": " ++ field.2) ++ " \x7d"

namespace Value

mutual

/-- The structure of a value, constructor by constructor. -/
def structureText : Value → String
  | .undefined => "Undefined"
  | .null => "Null"
  | .boolean b => "Boolean(" ++ boolText b ++ ")"
  | .number n => "Number(" ++ n.spelled ++ ")"
  | .string s => "String(" ++ quoted s ++ ")"
  | .array items => "Array([" ++ separated ", " (itemStructures items) ++ "])"
  | .object fields => "Object(" ++ bracedFields (fieldStructures fields) ++ ")"
  | .function name _ => "Function(Function(" ++ name ++ "))"

def itemStructures : List Value → List String
  | [] => []
  | item :: rest => structureText item :: itemStructures rest

/-- The quoted names of the fields of an object, with the structures of their values. -/
def fieldStructures : List (String × Value) → List (String × String)
  | [] => []
  | (name, value) :: rest => (quoted name, structureText value) :: fieldStructures rest

end

end Value

end LiveBindings
