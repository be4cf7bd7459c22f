import LiveBindings.Proofs.Nearest

namespace LiveBindings

namespace Table

variable {α : Type}

theorem find?_insertAll (table : Table α) (pairs : List (String × α)) (key : String) :
    (table.insertAll pairs).find? key =
      ((pairs.reverse.find? (·.1 == key)).map (·.2)).or (table.find? key) := by
  induction pairs generalizing table with
  | nil => rfl
  | cons pair rest ih =>
    have unfolded : table.insertAll (pair :: rest) = (table.insert pair.1 pair.2).insertAll rest := rfl
    rw [unfolded, ih, List.reverse_cons, List.find?_append, Option.map_or, Option.or_assoc, find?_insert]
    by_cases here : pair.1 = key
    · simp [here]
    · simp [here, Ne.symm here]

theorem find?_ofList (pairs : List (String × α)) (key : String) :
    (ofList pairs).find? key = (pairs.reverse.find? (·.1 == key)).map (·.2) := by
  rw [ofList, find?_insertAll, find?_empty, Option.or_none]

end Table

namespace Json

/-- The same document but for the precision of its numbers, which are compared by the nearest doubles.
Of repeated members of an object the last one counts. -/
inductive Same : Json String → Json String → Prop
  | null : Same .null .null
  | boolean (value : Bool) : Same (.boolean value) (.boolean value)
  | number {m n : Numeral} :
      m.nearest = n.nearest ∨ m.nearest.isZero = true ∧ n.nearest.isZero = true →
      Same (.number m) (.number n)
  | string (value : String) : Same (.string value) (.string value)
  | array {items items' : List (Json String)} : items.length = items'.length →
      (∀ (place : Nat) item item', items[place]? = some item → items'[place]? = some item' →
        Same item item') → Same (.array items) (.array items')
  | object {members members' : List (String × Json String)} :
      (∀ name, (member? name (.object members)).isSome = (member? name (.object members')).isSome) →
      (∀ name value value', member? name (.object members) = some value →
        member? name (.object members') = some value' → Same value value') →
      Same (.object members) (.object members')

/-- Whether every number in the document is one that documents may hold. -/
def Finite (document : Json String) : Prop := ∀ n, document.Contains (.number n) → n.isFinite = true

variable {document part : Json String}

theorem finite_null : (null : Json String).Finite := fun _ inside => nomatch inside

theorem finite_array_iff {items : List (Json String)} :
    (array items).Finite ↔ ∀ item ∈ items, item.Finite := by
  constructor
  · exact fun finite _ member n inside => finite n (.item member inside)
  · rintro finite n (_ | ⟨member, inside⟩)
    exact finite _ member n inside

theorem finite_object_iff {members : List (String × Json String)} :
    (object members).Finite ↔ ∀ member ∈ members, member.2.Finite := by
  constructor
  · exact fun finite _ member n inside => finite n (.member member inside)
  · rintro finite n (_ | _ | ⟨member, inside⟩)
    exact finite _ member n inside

theorem finite_number_iff {numeral : Numeral} :
    (number numeral : Json String).Finite ↔ numeral.isFinite = true := by
  constructor
  · exact fun finite => finite numeral (.self _)
  · rintro finite n ⟨⟩
    exact finite

theorem mem_of_member? {members : List (String × Json String)} {name : String} {value : Json String}
    (found : member? name (.object members) = some value) : (name, value) ∈ members := by
  obtain ⟨member, last, rfl⟩ := Option.map_eq_some_iff.mp found
  have same : member.1 = name := by simpa using List.find?_some last
  subst same
  exact List.mem_reverse.mp (List.mem_of_find?_eq_some last)

end Json

namespace Numeral

theorem isNaN_nearest {numeral : Numeral} (finite : numeral.isFinite = true) :
    numeral.nearest.isNaN = false := by
  cases numeral with
  | whole value => exact Number.isNaN_ofInt value
  | double value => simpa [nearest] using (Bool.and_eq_true_iff.mp finite).1

end Numeral

namespace Value

theorem ofItems_eq_map (items : List (Json String)) : ofItems items = items.map ofJson := by
  induction items with
  | nil => rfl
  | cons item rest ih => rw [ofItems, ih, List.map_cons]

theorem ofMembers_eq_map (members : List (String × Json String)) :
    ofMembers members = members.map fun member => (member.1, ofJson member.2) := by
  induction members with
  | nil => rfl
  | cons member rest ih => rw [ofMembers, ih, List.map_cons]

theorem ofJson_array (items : List (Json String)) : ofJson (.array items) = array (items.map ofJson) := by
  rw [ofJson, ofItems_eq_map]

/-- The fields of the object that an object of a document becomes. -/
def fieldsOf (members : List (String × Json String)) : Table Value := Table.ofList (ofMembers members)

theorem ofJson_object (members : List (String × Json String)) :
    ofJson (.object members) = ofFields (fieldsOf members) := by
  rw [ofJson, record, fieldsOf]

theorem find?_fieldsOf (members : List (String × Json String)) (name : String) :
    (fieldsOf members).find? name = (Json.member? name (.object members)).map ofJson := by
  rw [fieldsOf, Table.find?_ofList, ofMembers_eq_map, ← List.map_reverse, List.find?_map, Json.member?,
    Option.map_map, Option.map_map]
  rfl

/-- What stands somewhere in the value of a document is the value of what stands somewhere in the
document. -/
theorem exists_of_contains_ofJson {document : Json String} {part : Value}
    (inside : (ofJson document).Contains part) :
    ∃ source, document.Contains source ∧ part = ofJson source := by
  induction document with
  | array items ih =>
    rw [ofJson_array] at inside
    obtain _ | ⟨member, inside⟩ := inside
    · exact ⟨_, .self _, (ofJson_array items).symm⟩
    · obtain ⟨item, listed, rfl⟩ := List.mem_map.mp member
      obtain ⟨source, within, same⟩ := ih item listed inside
      exact ⟨source, .item listed within, same⟩
  | object members ih =>
    rw [ofJson_object] at inside
    obtain _ | _ | ⟨member, inside⟩ := inside
    · exact ⟨_, .self _, (ofJson_object members).symm⟩
    · have found := Table.find?_eq_some_iff.mpr member
      rw [find?_fieldsOf] at found
      obtain ⟨value, last, same⟩ := Option.map_eq_some_iff.mp found
      have listed := Json.mem_of_member? last
      obtain ⟨source, within, same⟩ := ih _ listed (same ▸ inside)
      exact ⟨source, .member listed within, same⟩
  | _ =>
    obtain _ | _ | _ := inside
    exact ⟨_, .self _, rfl⟩

theorem equal_of_same {document document' : Json String} (same : document.Same document')
    (finite : document.Finite) (finite' : document'.Finite) :
    (ofJson document).equal (ofJson document') = true := by
  induction same with
  | null | boolean value | string value => exact (equal_iff_of_plain rfl).mpr rfl
  | number stands =>
    exact equal_number_iff.mpr ⟨Numeral.isNaN_nearest (Json.finite_number_iff.mp finite),
      Numeral.isNaN_nearest (Json.finite_number_iff.mp finite'),
      Number.scaled_eq_iff.mpr (stands.imp_left (congrArg Number.bits))⟩
  | array length _ ih =>
    rw [ofJson_array, ofJson_array, equal_array_iff, List.forall₂_map_left_iff,
      List.forall₂_map_right_iff, forall₂_iff_getElem?]
    exact ⟨length, fun place item item' here here' => ih place item item' here here'
      (Json.finite_array_iff.mp finite item (List.mem_of_getElem? here))
      (Json.finite_array_iff.mp finite' item' (List.mem_of_getElem? here'))⟩
  | object names _ ih =>
    rw [ofJson_object, ofJson_object]
    refine equal_object_iff.mpr ((Table.forall₂_entries_iff fun a b : Value => a.equal b = true).mpr
      ⟨fun name => ?_, fun name a b found found' => ?_⟩)
    · rw [Table.mem_iff, Table.mem_iff, find?_fieldsOf, find?_fieldsOf, Option.isSome_map,
        Option.isSome_map, names]
    · rw [find?_fieldsOf] at found found'
      obtain ⟨value, last, rfl⟩ := Option.map_eq_some_iff.mp found
      obtain ⟨value', last', rfl⟩ := Option.map_eq_some_iff.mp found'
      exact ih name value value' last last' (Json.finite_object_iff.mp finite _ (Json.mem_of_member? last))
        (Json.finite_object_iff.mp finite' _ (Json.mem_of_member? last'))

theorem same_of_equal {document document' : Json String}
    (same : (ofJson document).equal (ofJson document') = true) : document.Same document' := by
  induction document generalizing document' with
  | null =>
    cases document' with
    | null => exact .null
    | _ => cases same
  | boolean value =>
    cases document' with
    | boolean value' => exact eq_of_beq same ▸ .boolean value
    | _ => cases same
  | number n =>
    cases document' with
    | number n' =>
      obtain ⟨-, -, stands⟩ := equal_number_iff.mp same
      exact .number ((Number.scaled_eq_iff.mp stands).imp_left (congrArg Number.mk))
    | _ => cases same
  | string value =>
    cases document' with
    | string value' => exact eq_of_beq same ▸ .string value
    | _ => cases same
  | array items ih =>
    cases document' with
    | array items' =>
      rw [ofJson_array, ofJson_array, equal_array_iff, List.forall₂_map_left_iff,
        List.forall₂_map_right_iff, forall₂_iff_getElem?] at same
      exact .array same.1 fun place item item' here here' =>
        ih item (List.mem_of_getElem? here) (same.2 place item item' here here')
    | _ => cases same
  | object members ih =>
    cases document' with
    | object members' =>
      rw [ofJson_object, ofJson_object] at same
      obtain ⟨names, values⟩ :=
        (Table.forall₂_entries_iff fun a b : Value => a.equal b = true).mp (equal_object_iff.mp same)
      refine .object (fun name => ?_) fun name value value' last last' => ?_
      · have both := names name
        rw [Table.mem_iff, Table.mem_iff, find?_fieldsOf, find?_fieldsOf, Option.isSome_map,
          Option.isSome_map, ← Bool.eq_iff_iff] at both
        exact both
      · refine ih _ (Json.mem_of_member? last) (values name _ _ ?_ ?_)
        · rw [find?_fieldsOf, last, Option.map_some]
        · rw [find?_fieldsOf, last', Option.map_some]
    | _ => cases same

/-- A document with finite numbers becomes a value that equals itself, without undefined, functions and
what is not a number; two documents become equal values when they are the same up to the doubles that
their numbers are rounded to, which are the nearest ones. -/
theorem ofJson_faithful :
    (∀ document : Json String, document.Finite →
      (∀ part, (ofJson document).Contains part → part.isUndefined = false ∧ part.isFunction = false ∧
        ∀ n, part = .number n → n.isNaN = false) ∧
      (ofJson document).equal (ofJson document) = true) ∧
    (∀ document document' : Json String, document.Finite → document'.Finite →
      ((ofJson document).equal (ofJson document') = true ↔ document.Same document')) ∧
    ∀ value : Int, value.natAbs < 2 ^ 64 → (Numeral.whole value).nearest.isInfinite = false ∧
      ∀ other : Number, ((Numeral.whole value).nearest.scaled - value * Number.one).natAbs ≤
        (other.scaled - value * Number.one).natAbs := by
  refine ⟨fun document finite => ?_, fun document document' finite finite' => ?_,
    fun value => Number.ofInt_nearest⟩
  · have proper : ∀ part, (ofJson document).Contains part → part.isUndefined = false ∧
        part.isFunction = false ∧ ∀ n, part = .number n → n.isNaN = false := by
      intro part inside
      obtain ⟨source, within, rfl⟩ := exists_of_contains_ofJson inside
      refine ⟨by cases source <;> rfl, by cases source <;> rfl, fun n same => ?_⟩
      cases source with
      | number numeral => exact number.inj same ▸ Numeral.isNaN_nearest (finite numeral within)
      | _ => cases same
    exact ⟨proper, equal_self_iff.mpr fun n inside => (proper _ inside).2.2 n rfl⟩
  · exact ⟨same_of_equal, fun same => equal_of_same same finite finite'⟩

/-- Members in another order, a whole number that no double is beside the double next to it, and the
other zero. -/
theorem ofJson_faithful_of_rounded :
    Json.Same
      (.object [("b", .array [.null, .number (.whole 9007199254740993)]),
        ("a", .number (.double (.zero true)))])
      (.object [("a", .number (.whole 0)), ("b", .array [.null, .number (.whole 9007199254740992)])]) ∧
    (Numeral.whole 9007199254740993).nearest.isInfinite = false := by
  obtain ⟨-, same, nearest⟩ := ofJson_faithful
  refine ⟨(same _ _ ?_ ?_).mp (by decide +kernel), (nearest 9007199254740993 (by decide)).1⟩
  · have numbers : (Numeral.whole 9007199254740993).isFinite = true ∧
        (Numeral.double (.zero true)).isFinite = true := by decide
    simpa [Json.finite_object_iff, Json.finite_array_iff, Json.finite_number_iff, Json.finite_null] using
      numbers
  · simp [Json.finite_object_iff, Json.finite_array_iff, Json.finite_number_iff, Json.finite_null,
      Numeral.isFinite]

end Value

end LiveBindings
