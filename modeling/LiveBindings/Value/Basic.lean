import LiveBindings.Number.Rounding
import LiveBindings.Table

namespace LiveBindings

/-- The identity of a function. -/
abbrev FunctionId := Nat

/-- A value that modules exchange. The fields of an object stand in increasing order of their
names. -/
inductive Value
  | undefined
  | null
  | boolean (value : Bool)
  | number (value : Number)
  | string (value : String)
  | array (items : List Value)
  | object (fields : List (String × Value))
  | function (name : String) (id : FunctionId)
  deriving Inhabited

namespace Value

def ofFields (fields : Table Value) : Value := .object fields.entries

/-- The object with the given fields, where the last field of a name wins. -/
def record (fields : List (String × Value)) : Value := ofFields (Table.ofList fields)

def ofNat (n : Nat) : Value := .number (.ofInt n)

def isUndefined : Value → Bool
  | .undefined => true
  | _ => false

def isNullish : Value → Bool
  | .undefined | .null => true
  | _ => false

def isFunction : Value → Bool
  | .function .. => true
  | _ => false

/-- The number that the value is, if it is one. -/
def asNumber? : Value → Option Number
  | .number n => some n
  | _ => none

/-- The text that the value is, if it is one. -/
def asString? : Value → Option String
  | .string s => some s
  | _ => none

/-- The name of the value's type, where null and arrays count as objects. -/
def typeName : Value → String
  | .undefined => "undefined"
  | .null | .array _ | .object _ => "object"
  | .boolean _ => "boolean"
  | .number _ => "number"
  | .string _ => "string"
  | .function .. => "function"

mutual

/-- Compares two values member by member, given how numbers and how functions compare. -/
def agree (numbers : Number → Number → Bool)
    (functions : String × FunctionId → String × FunctionId → Bool) : Value → Value → Bool
  | .undefined, .undefined => true
  | .null, .null => true
  | .boolean a, .boolean b => a == b
  | .number a, .number b => numbers a b
  | .string a, .string b => a == b
  | .array a, .array b => agreeItems numbers functions a b
  | .object a, .object b => agreeFields numbers functions a b
  | .function name id, .function name' id' => functions (name, id) (name', id')
  | _, _ => false

/-- Compares two lists of values, which must be equally long. -/
def agreeItems (numbers : Number → Number → Bool)
    (functions : String × FunctionId → String × FunctionId → Bool) :
    List Value → List Value → Bool
  | [], [] => true
  | a :: as, b :: bs => agree numbers functions a b && agreeItems numbers functions as bs
  | _, _ => false

/-- Compares two lists of fields, which must have the same names. -/
def agreeFields (numbers : Number → Number → Bool)
    (functions : String × FunctionId → String × FunctionId → Bool) :
    List (String × Value) → List (String × Value) → Bool
  | [], [] => true
  | (name, a) :: as, (name', b) :: bs =>
    name == name' && agree numbers functions a b && agreeFields numbers functions as bs
  | _, _ => false

end

/-- The equality that programs see: numbers compare by the rules of IEEE 754, so what is not a
number differs from itself, and functions by identity whatever their names are. -/
def equal : Value → Value → Bool := agree Number.equal fun f g => f.2 == g.2

/-- Whether two values are shown alike: numbers by their bits, and functions by their names. -/
def alike : Value → Value → Bool := agree Number.alike fun f g => f.1 == g.1

end Value

/-- Types whose elements have a counterpart among the values. -/
class ToValue (α : Type) where
  toValue : α → Value

export ToValue (toValue)

instance : ToValue Value := ⟨id⟩

instance : ToValue Bool := ⟨.boolean⟩

instance : ToValue Number := ⟨.number⟩

/-- A whole number stands for the nearest double. -/
instance : ToValue Int := ⟨fun i => .number (.ofInt i)⟩

instance : ToValue String := ⟨.string⟩

/-- A list stands for an array of its elements' values. -/
instance {α : Type} [ToValue α] : ToValue (List α) := ⟨fun items => .array (items.map toValue)⟩

/-- What is absent is undefined, not null. -/
instance {α : Type} [ToValue α] : ToValue (Option α) := ⟨fun item => item.elim .undefined toValue⟩

end LiveBindings
