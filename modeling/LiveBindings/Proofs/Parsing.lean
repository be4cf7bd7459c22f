import LiveBindings.Json.Reader
import LiveBindings.Proofs.Lexemes
import LiveBindings.Proofs.Nesting

namespace LiveBindings

namespace Json

mutual

/-- The tokens of a document: those of a container's parts with commas between the parts. -/
def sequence : Json Quoted → List Token
  | .null => [.null]
  | .boolean b => [.boolean b]
  | .number n => [.number n]
  | .string s => [.string s]
  | .array items => .openBracket :: ([Token.comma].intercalate (itemSequences items) ++ [.closeBracket])
  | .object members =>
    .openBrace :: ([Token.comma].intercalate (memberSequences members) ++ [.closeBrace])

def itemSequences : List (Json Quoted) → List (List Token)
  | [] => []
  | item :: rest => sequence item :: itemSequences rest

def memberSequences : List (Quoted × Json Quoted) → List (List Token)
  | [] => []
  | (name, value) :: rest => (.string name :: .colon :: sequence value) :: memberSequences rest

end

def memberSequence (member : Quoted × Json Quoted) : List Token :=
  .string member.1 :: .colon :: member.2.sequence

theorem itemSequences_eq_map (items : List (Json Quoted)) : itemSequences items = items.map sequence := by
  induction items with
  | nil => rfl
  | cons item rest ih => rw [itemSequences, ih, List.map_cons]

theorem memberSequences_eq_map (members : List (Quoted × Json Quoted)) :
    memberSequences members = members.map memberSequence := by
  induction members with
  | nil => rfl
  | cons member rest ih => rw [memberSequences, ih, List.map_cons, memberSequence]

theorem sequence_array (items : List (Json Quoted)) : (array items).sequence =
    .openBracket :: ([Token.comma].intercalate (items.map sequence) ++ [.closeBracket]) := by
  rw [sequence, itemSequences_eq_map]

theorem sequence_object (members : List (Quoted × Json Quoted)) : (object members).sequence =
    .openBrace :: ([Token.comma].intercalate (members.map memberSequence) ++ [.closeBrace]) := by
  rw [sequence, memberSequences_eq_map]

/-- Whether a text writes a document. -/
def Writes (document : Json Quoted) (text : String) : Prop :=
  Token.Spaced document.sequence text.toList

/-- Parts with commas between them are the first part, and each later one after a comma. -/
theorem intercalate_cons_eq {α : Type} (separator first : List α) (rest : List (List α)) :
    separator.intercalate (first :: rest) = first ++ rest.flatMap (separator ++ ·) := by
  induction rest generalizing first with
  | nil => simp
  | cons next rest ih => simp [List.intercalate_cons_cons, ih]

namespace Reader

variable {around : List Open} {done : List (Json Quoted)} {rest : List Token}

theorem steps?_cons {reader next : Reader} {token : Token} (step : step? reader token = some next) :
    steps? reader (token :: rest) = steps? next rest := by
  rw [steps?, step]

/-- No document begins with a closing bracket. -/
theorem steps?_itemOrEnd (document : Json Quoted) : steps? (.itemOrEnd around) (document.sequence ++ rest) =
    steps? (.value (.items [] :: around)) (document.sequence ++ rest) := by
  cases document <;> rfl

/-- That a document's tokens are read as the document, whatever waits for it and whatever follows. -/
def Reads (document : Json Quoted) : Prop := ∀ around rest,
  steps? (.value around) (document.sequence ++ rest) = steps? (finish document around) rest

theorem steps?_laterItems {items : List (Json Quoted)} (reads : ∀ item ∈ items, Reads item) :
    steps? (.afterItem done around)
        (items.flatMap ([Token.comma] ++ sequence ·) ++ .closeBracket :: rest) =
      steps? (finish (.array (done.reverse ++ items)) around) rest := by
  induction items generalizing done with
  | nil => simp [steps?, step?]
  | cons item items ih =>
    obtain ⟨here, later⟩ := List.forall_mem_cons.mp reads
    have comma : step? (.afterItem done around) .comma = some (.value (.items done :: around)) := rfl
    rw [List.flatMap_cons, List.append_assoc, List.append_assoc, List.singleton_append, steps?_cons comma,
      here, finish, ih later]
    simp

theorem steps?_member {name : Quoted} {value : Json Quoted} (reads : Reads value)
    (members : List (Quoted × Json Quoted)) (rest : List Token) :
    steps? (.colon members name around) (.colon :: (value.sequence ++ rest)) =
      steps? (.afterMember ((name, value) :: members) around) rest := by
  have colon : step? (.colon members name around) .colon = some (.value (.members members name :: around)) :=
    rfl
  rw [steps?_cons colon, reads, finish]

theorem steps?_laterMembers {members : List (Quoted × Json Quoted)}
    (reads : ∀ member ∈ members, Reads member.2) {done : List (Quoted × Json Quoted)} :
    steps? (.afterMember done around)
        (members.flatMap ([Token.comma] ++ memberSequence ·) ++ .closeBrace :: rest) =
      steps? (finish (.object (done.reverse ++ members)) around) rest := by
  induction members generalizing done with
  | nil => simp [steps?, step?]
  | cons member members ih =>
    obtain ⟨here, later⟩ := List.forall_mem_cons.mp reads
    have comma : step? (.afterMember done around) .comma = some (.name done around) := rfl
    have name : step? (.name done around) (.string member.1) = some (.colon done member.1 around) := rfl
    rw [List.flatMap_cons, List.append_assoc, List.append_assoc, List.singleton_append, steps?_cons comma,
      memberSequence, List.cons_append, steps?_cons name, List.cons_append, steps?_member here, ih later]
    simp

theorem reads (document : Json Quoted) : Reads document := by
  induction document with
  | null | boolean value | number value | string value => exact fun around rest => rfl
  | array items ih =>
    intro around rest
    have opened : step? (.value around) .openBracket = some (.itemOrEnd around) := rfl
    rw [sequence_array, List.cons_append, steps?_cons opened, List.append_assoc, List.singleton_append]
    cases items with
    | nil => rfl
    | cons item items =>
      -- The first item has no comma before it; all later ones have, and are read alike.
      obtain ⟨here, later⟩ := List.forall_mem_cons.mp ih
      rw [List.map_cons, intercalate_cons_eq, List.flatMap_map, List.append_assoc, steps?_itemOrEnd,
        here, finish, steps?_laterItems later]
      simp
  | object members ih =>
    intro around rest
    have opened : step? (.value around) .openBrace = some (.nameOrEnd around) := rfl
    rw [sequence_object, List.cons_append, steps?_cons opened, List.append_assoc, List.singleton_append]
    cases members with
    | nil => rfl
    | cons member members =>
      obtain ⟨here, later⟩ := List.forall_mem_cons.mp ih
      have name : step? (.nameOrEnd around) (.string member.1) = some (.colon [] member.1 around) := rfl
      rw [List.map_cons, intercalate_cons_eq, List.flatMap_map, List.append_assoc, memberSequence,
        List.cons_append, steps?_cons name, List.cons_append, steps?_member here,
        steps?_laterMembers later]
      simp

/-- The tokens of parts with a comma after each of them. -/
def listed (parts : List (List Token)) : List Token := parts.flatMap (· ++ [.comma])

/-- The tokens that were read of an open container. -/
def opened : Open → List Token
  | .items done => .openBracket :: listed (done.reverse.map sequence)
  | .members done key => .openBrace :: (listed (done.reverse.map memberSequence) ++ [.string key, .colon])

/-- The tokens that were read of all open containers, the outermost first. -/
def outside (around : List Open) : List Token := around.reverse.flatMap opened

/-- The tokens that were read. -/
def taken : Reader → List Token
  | .value around => outside around
  | .itemOrEnd around => outside around ++ [.openBracket]
  | .afterItem done around =>
    outside around ++ .openBracket :: [Token.comma].intercalate (done.reverse.map sequence)
  | .nameOrEnd around => outside around ++ [.openBrace]
  | .name done around => outside around ++ .openBrace :: listed (done.reverse.map memberSequence)
  | .colon done key around =>
    outside around ++ .openBrace :: (listed (done.reverse.map memberSequence) ++ [.string key])
  | .afterMember done around =>
    outside around ++ .openBrace :: [Token.comma].intercalate (done.reverse.map memberSequence)
  | .complete document => document.sequence

/-- What a number brings the reader to is the end of a value. -/
theorem exists_finish {reader next : Reader} {numeral : Numeral}
    (step : step? reader (.number numeral) = some next) :
    ∃ around, next = finish (.number numeral) around := by
  cases reader with
  | value around =>
    cases step
    exact ⟨around, rfl⟩
  | itemOrEnd around =>
    cases step
    exact ⟨.items [] :: around, rfl⟩
  | _ => cases step

end Reader

end Json

end LiveBindings
