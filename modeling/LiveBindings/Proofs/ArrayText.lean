import LiveBindings.Proofs.Nesting
import LiveBindings.Value.Text
import Mathlib.Algebra.BigOperators.Group.List.Basic
import Mathlib.Algebra.GroupWithZero.Nat

namespace LiveBindings

theorem separated_eq_intercalate (separator : String) (texts : List String) :
    separated separator texts = separator.intercalate texts := by
  induction texts with
  | nil => simp [separated]
  | cons text rest ih => cases rest <;> simp_all [separated]

/-- Texts that are joined from parts by a separator and then by the same one are joined from all the
parts at once, when each has a part. -/
theorem intercalate_flatMap {α : Type} (separator : String) {items : List α} {parts : α → List String}
    (nonempty : ∀ item ∈ items, parts item ≠ []) : separator.intercalate (items.flatMap parts) =
      separator.intercalate (items.map fun item => separator.intercalate (parts item)) := by
  induction items with
  | nil => rfl
  | cons item rest ih =>
    obtain ⟨here, later⟩ := List.forall_mem_cons.mp nonempty
    rw [List.flatMap_cons, List.map_cons]
    by_cases last : rest = []
    · simp [last]
    · have more : rest.flatMap parts ≠ [] := by
        obtain ⟨next, inside⟩ := List.exists_mem_of_ne_nil rest last
        intro empty
        exact later next inside (List.flatMap_eq_nil_iff.mp empty next inside)
      rw [String.intercalate_append_of_ne_nil here more, ih later,
        String.intercalate_cons_of_ne_nil (by simpa using last)]

theorem count_toList_intercalate {texts : List String} (nonempty : texts ≠ []) :
    (",".intercalate texts).toList.count ',' =
      (texts.map fun text => text.toList.count ',').sum + (texts.length - 1) := by
  induction texts with
  | nil => exact absurd rfl nonempty
  | cons text rest ih =>
    by_cases last : rest = []
    · simp [last]
    · have more : 0 < rest.length := List.length_pos_iff.mpr last
      rw [String.intercalate_cons_of_ne_nil last, String.toList_append, String.toList_append,
        List.count_append, List.count_append, ih last, List.map_cons, List.sum_cons, List.length_cons]
      have comma : List.count ',' ",".toList = 1 := rfl
      omega

namespace Value

mutual

/-- The members of an array in their order, each array among them in turn by its leaves, and an empty
array as a single null. Any other value is its only leaf. -/
def leaves : Value → List Value
  | .array [] => [.null]
  | .array (item :: rest) => leaves item ++ restLeaves rest
  | value => [value]

def restLeaves : List Value → List Value
  | [] => []
  | item :: rest => leaves item ++ restLeaves rest

end

def isArray : Value → Bool
  | .array _ => true
  | _ => false

/-- The text of a value as a member of an array. -/
def memberText (value : Value) : String := if value.isNullish then "" else value.text

theorem itemTexts_eq_map (items : List Value) : itemTexts items = items.map memberText := by
  induction items with
  | nil => rfl
  | cons item rest ih => rw [itemTexts, ih, List.map_cons, memberText]

theorem text_array_eq (items : List Value) :
    (array items).text = ",".intercalate (items.map memberText) := by
  rw [text, separated_eq_intercalate, itemTexts_eq_map]

theorem restLeaves_eq_flatMap (items : List Value) : restLeaves items = items.flatMap leaves := by
  induction items with
  | nil => rfl
  | cons item rest ih => rw [restLeaves, ih, List.flatMap_cons]

theorem leaves_array {items : List Value} (nonempty : items ≠ []) :
    (array items).leaves = items.flatMap leaves := by
  cases items with
  | nil => exact absurd rfl nonempty
  | cons item rest => rw [leaves, restLeaves_eq_flatMap, List.flatMap_cons]

theorem leaves_ne_nil (value : Value) : value.leaves ≠ [] := by
  induction value with
  | array items ih =>
    cases items with
    | nil => exact List.cons_ne_nil _ _
    | cons item rest => exact List.append_ne_nil_of_left_ne_nil (ih item List.mem_cons_self) _
  | _ => exact List.cons_ne_nil _ _

theorem isArray_leaf (value : Value) : ∀ leaf ∈ value.leaves, leaf.isArray = false := by
  induction value with
  | array items ih =>
    by_cases empty : items = []
    · simp [empty, leaves, isArray]
    · rw [leaves_array empty]
      intro leaf inside
      obtain ⟨item, member, inside⟩ := List.mem_flatMap.mp inside
      exact ih item member leaf inside
  | _ => simp [leaves, isArray]

/-- At every level the text of a member is the text of its leaves, a hole standing for no text. -/
theorem memberText_eq (value : Value) :
    value.memberText = ",".intercalate (value.leaves.map memberText) := by
  induction value with
  | array items ih =>
    rw [memberText, if_neg (by simp [isNullish]), text_array_eq]
    by_cases empty : items = []
    · simp [empty, leaves, memberText, isNullish]
    · have parts : ∀ item ∈ items, item.leaves.map memberText ≠ [] := by
        simp [leaves_ne_nil]
      rw [leaves_array empty, List.map_flatMap, intercalate_flatMap "," parts,
        List.map_congr_left ih]
  | _ => simp [leaves]

/-- An array is shown as the flat array of its leaves: what they are shown as, nothing for a hole, and
one comma less than there are leaves. -/
theorem text_of_leaves (items : List Value) :
    (array items).text = (array (array items).leaves).text ∧
    (array items).text = ",".intercalate ((array items).leaves.map fun leaf =>
      if leaf.isNullish then "" else leaf.text) ∧
    (array items).text.toList.count ',' =
      ((array items).leaves.map fun leaf => leaf.memberText.toList.count ',').sum +
        ((array items).leaves.length - 1) ∧
    (array items).leaves ≠ [] ∧ ∀ leaf ∈ (array items).leaves, leaf.isArray = false := by
  have flat : (array items).text = ",".intercalate ((array items).leaves.map memberText) :=
    memberText_eq (array items)
  have nonempty : (array items).leaves.map memberText ≠ [] := by simp [leaves_ne_nil]
  refine ⟨by rw [text_array_eq (array items).leaves, flat], flat, ?_, leaves_ne_nil _, isArray_leaf _⟩
  rw [flat, count_toList_intercalate nonempty, List.map_map, List.length_map]
  rfl

example : (array [.array [], .string "a", .array [.undefined, .array [.null]]]).leaves =
    [.null, .string "a", .undefined, .null] := rfl

end Value

end LiveBindings
