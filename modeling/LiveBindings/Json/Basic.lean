import LiveBindings.Json.Numeral
import LiveBindings.Value.Basic

namespace LiveBindings

/-- A document, whose string literals hold a `text` each. Members of an object stand as they are
written, repeated names included. -/
inductive Json (text : Type)
  | null
  | boolean (value : Bool)
  | number (value : Numeral)
  | string (value : text)
  | array (items : List (Json text))
  | object (members : List (text × Json text))
  deriving Inhabited

namespace Json

mutual

/-- The document with every literal's content made into a text, if each one is one and every number
is finite. -/
def texts? : Json (Option String) → Option (Json String)
  | .null => some .null
  | .boolean b => some (.boolean b)
  | .number n => if n.isFinite then some (.number n) else none
  | .string s => s.map .string
  | .array items => (itemTexts? items).map .array
  | .object members => (memberTexts? members).map .object

/-- The items with every literal's content made into a text. -/
def itemTexts? : List (Json (Option String)) → Option (List (Json String))
  | [] => some []
  | item :: rest => do return (← texts? item) :: (← itemTexts? rest)

/-- The members with every literal's content made into a text. -/
def memberTexts? :
    List (Option String × Json (Option String)) → Option (List (String × Json String))
  | [] => some []
  | (name, value) :: rest => do return (← name, ← texts? value) :: (← memberTexts? rest)

end

def member? (name : String) : Json String → Option (Json String)
  | .object members => (members.reverse.find? (·.1 == name)).map (·.2)
  | _ => none

end Json

namespace Value

mutual

/-- The value that a document stands for: its numbers become the nearest doubles, and of a repeated
member the last one counts. -/
def ofJson : Json String → Value
  | .null => .null
  | .boolean b => .boolean b
  | .number n => .number n.nearest
  | .string s => .string s
  | .array items => .array (ofItems items)
  | .object members => record (ofMembers members)

def ofItems : List (Json String) → List Value
  | [] => []
  | item :: rest => ofJson item :: ofItems rest

def ofMembers : List (String × Json String) → List (String × Value)
  | [] => []
  | (name, value) :: rest => (name, ofJson value) :: ofMembers rest

end

end Value

instance : ToValue (Json String) := ⟨Value.ofJson⟩

end LiveBindings
