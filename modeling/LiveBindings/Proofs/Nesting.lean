import LiveBindings.Json.Basic

namespace LiveBindings

namespace Value

/-- What holds of an array or an object when it holds of all its members holds of every value. -/
@[induction_eliminator]
theorem induct {motive : Value → Prop} (undefined : motive .undefined) (null : motive .null)
    (boolean : ∀ value, motive (.boolean value)) (number : ∀ value, motive (.number value))
    (string : ∀ value, motive (.string value))
    (array : ∀ items, (∀ item ∈ items, motive item) → motive (.array items))
    (object : ∀ fields, (∀ field ∈ fields, motive field.2) → motive (.object fields))
    (function : ∀ name id, motive (.function name id)) (value : Value) : motive value :=
  Value.rec undefined null boolean number string array object function
    (List.forall_mem_nil _) (fun _ _ head tail => List.forall_mem_cons.mpr ⟨head, tail⟩)
    (List.forall_mem_nil _) (fun _ _ head tail => List.forall_mem_cons.mpr ⟨head, tail⟩)
    (fun _ _ member => member) value

/-- The second value is the first one, or stands in it at some depth. -/
inductive Contains : Value → Value → Prop
  | self (value : Value) : Contains value value
  | item {items : List Value} {item part : Value} : item ∈ items → Contains item part →
      Contains (.array items) part
  | field {fields : List (String × Value)} {field : String × Value} {part : Value} :
      field ∈ fields → Contains field.2 part → Contains (.object fields) part

variable {n : Number}

theorem contains_number_number {m : Number} : (number m).Contains (.number n) ↔ n = m := by
  constructor
  · rintro ⟨⟩
    rfl
  · rintro rfl
    exact .self _

theorem contains_array_number {items : List Value} : (array items).Contains (.number n) ↔
    ∃ item ∈ items, item.Contains (.number n) := by
  constructor
  · rintro (_ | ⟨member, inside⟩)
    exact ⟨_, member, inside⟩
  · rintro ⟨item, member, inside⟩
    exact .item member inside

theorem contains_object_number {fields : List (String × Value)} :
    (object fields).Contains (.number n) ↔ ∃ field ∈ fields, field.2.Contains (.number n) := by
  constructor
  · rintro (_ | _ | ⟨member, inside⟩)
    exact ⟨_, member, inside⟩
  · rintro ⟨field, member, inside⟩
    exact .field member inside

end Value

namespace Json

variable {text : Type}

/-- What holds of an array or an object when it holds of all its members holds of every document. -/
@[induction_eliminator]
theorem induct {motive : Json text → Prop} (null : motive .null)
    (boolean : ∀ value, motive (.boolean value)) (number : ∀ value, motive (.number value))
    (string : ∀ value, motive (.string value))
    (array : ∀ items, (∀ item ∈ items, motive item) → motive (.array items))
    (object : ∀ members, (∀ member ∈ members, motive member.2) → motive (.object members))
    (document : Json text) : motive document :=
  Json.rec null boolean number string array object
    (List.forall_mem_nil _) (fun _ _ head tail => List.forall_mem_cons.mpr ⟨head, tail⟩)
    (List.forall_mem_nil _) (fun _ _ head tail => List.forall_mem_cons.mpr ⟨head, tail⟩)
    (fun _ _ member => member) document

/-- The second document is the first one, or stands in it at some depth. -/
inductive Contains : Json text → Json text → Prop
  | self (document : Json text) : Contains document document
  | item {items : List (Json text)} {item part : Json text} : item ∈ items → Contains item part →
      Contains (.array items) part
  | member {members : List (text × Json text)} {member : text × Json text} {part : Json text} :
      member ∈ members → Contains member.2 part → Contains (.object members) part

end Json

end LiveBindings
