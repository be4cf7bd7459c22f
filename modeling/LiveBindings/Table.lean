namespace LiveBindings

/-- A finite map from texts to `α`, its entries in strictly increasing order of the key. So two
tables with the same look-ups are the same table. -/
structure Table (α : Type) where
  /-- The bindings, one for each key. -/
  entries : List (String × α)
  /-- Each key stands once, and after every smaller one. -/
  sorted : (entries.map Prod.fst).Pairwise (· < ·)

namespace Table

variable {α : Type}

def empty : Table α := ⟨[], .nil⟩

instance : Inhabited (Table α) := ⟨empty⟩

def findIn (key : String) : List (String × α) → Option α
  | [] => none
  | entry :: rest => if key = entry.1 then some entry.2 else findIn key rest

/-- Puts `value` under `key` at its place in a sorted list, in place of what stood there. -/
def place (key : String) (value : α) : List (String × α) → List (String × α)
  | [] => [(key, value)]
  | entry :: rest =>
    if key = entry.1 then (key, value) :: rest
    else if key < entry.1 then (key, value) :: entry :: rest
    else entry :: place key value rest

theorem mem_keys_place {key other : String} {value : α} {list : List (String × α)} :
    other ∈ (place key value list).map Prod.fst ↔ other = key ∨ other ∈ list.map Prod.fst := by
  induction list with
  | nil => simp [place]
  | cons entry rest ih =>
    simp only [place]
    split
    · next same => simp [same]
    · split
      · simp
      · simp only [List.map_cons, List.mem_cons, ih]
        grind

theorem sorted_place {key : String} {value : α} {list : List (String × α)}
    (sorted : (list.map Prod.fst).Pairwise (· < ·)) :
    ((place key value list).map Prod.fst).Pairwise (· < ·) := by
  induction list with
  | nil => simp [place]
  | cons entry rest ih =>
    rw [List.map_cons, List.pairwise_cons] at sorted
    obtain ⟨least, tail⟩ := sorted
    simp only [place]
    split
    · next same =>
      rw [List.map_cons, List.pairwise_cons, same]
      exact ⟨least, tail⟩
    · next differs =>
      split
      · next before =>
        rw [List.map_cons, List.pairwise_cons, List.map_cons, List.pairwise_cons]
        refine ⟨fun other member => ?_, least, tail⟩
        rcases List.mem_cons.1 member with rfl | member
        · exact before
        · exact String.lt_trans before (least other member)
      · next notBefore =>
        rw [List.map_cons, List.pairwise_cons]
        refine ⟨fun other member => ?_, ih tail⟩
        rcases mem_keys_place.1 member with rfl | member
        · exact Std.lt_of_le_of_ne (String.not_lt.1 notBefore) (Ne.symm differs)
        · exact least other member

def find? (table : Table α) (key : String) : Option α := findIn key table.entries

def contains (table : Table α) (key : String) : Bool := (table.find? key).isSome

instance : Membership String (Table α) := ⟨fun table key => table.contains key = true⟩

instance (key : String) (table : Table α) : Decidable (key ∈ table) :=
  inferInstanceAs (Decidable (table.contains key = true))

def insert (table : Table α) (key : String) (value : α) : Table α :=
  ⟨place key value table.entries, sorted_place table.sorted⟩

/-- Binds each pair in turn, so that the last pair of a key wins. -/
def insertAll (table : Table α) (pairs : List (String × α)) : Table α :=
  pairs.foldl (fun table pair => table.insert pair.1 pair.2) table

/-- The table of a list of pairs, where the last pair of a key wins. -/
def ofList (pairs : List (String × α)) : Table α := insertAll empty pairs

def erase (table : Table α) (key : String) : Table α :=
  ⟨table.entries.filter (·.1 ≠ key),
    table.sorted.sublist (List.filter_sublist.map Prod.fst)⟩

def keys (table : Table α) : List String := table.entries.map Prod.fst

def size (table : Table α) : Nat := table.entries.length

def isEmpty (table : Table α) : Bool := table.entries.isEmpty

theorem findIn_place_self (key : String) (value : α) (list : List (String × α)) :
    findIn key (place key value list) = some value := by
  induction list with
  | nil => simp [place, findIn]
  | cons entry rest ih =>
    simp only [place]
    split
    · simp [findIn]
    · split
      · simp [findIn]
      · next differs _ => simpa [findIn, differs] using ih

theorem findIn_place_of_ne {key other : String} (differs : other ≠ key) (value : α)
    (list : List (String × α)) : findIn other (place key value list) = findIn other list := by
  induction list with
  | nil => simp [place, findIn, differs]
  | cons entry rest ih =>
    simp only [place]
    split
    · next same => simp [findIn, differs, ← same]
    · split
      · simp [findIn, differs]
      · simp [findIn, ih]

@[simp]
theorem find?_empty (key : String) : (empty : Table α).find? key = none := rfl

@[simp]
theorem find?_insert_self (table : Table α) (key : String) (value : α) :
    (table.insert key value).find? key = some value :=
  findIn_place_self key value table.entries

theorem find?_insert_of_ne (table : Table α) {key other : String} (differs : other ≠ key)
    (value : α) : (table.insert key value).find? other = table.find? other :=
  findIn_place_of_ne differs value table.entries

theorem find?_insert (table : Table α) (key other : String) (value : α) :
    (table.insert key value).find? other =
      if other = key then some value else table.find? other := by
  split
  · next same => rw [same, find?_insert_self]
  · next differs => exact find?_insert_of_ne table differs value

theorem mem_iff {table : Table α} {key : String} : key ∈ table ↔ (table.find? key).isSome :=
  Iff.rfl

theorem mem_map_fst_iff {key : String} {list : List (String × α)} :
    key ∈ list.map Prod.fst ↔ (findIn key list).isSome = true := by
  induction list with
  | nil => simp [findIn]
  | cons entry rest ih =>
    rw [List.map_cons, List.mem_cons, ih]
    by_cases same : key = entry.1 <;> simp [findIn, same]

theorem mem_keys {table : Table α} {key : String} : key ∈ table.keys ↔ key ∈ table := mem_map_fst_iff

theorem length_keys (table : Table α) : table.keys.length = table.size := List.length_map ..

theorem isEmpty_iff {table : Table α} : table.isEmpty = true ↔ ∀ key, key ∉ table := by
  rw [isEmpty, ← List.isEmpty_map, List.isEmpty_iff, List.eq_nil_iff_forall_not_mem]
  exact forall_congr' fun key => not_congr mem_keys

theorem keys_sorted (table : Table α) : table.keys.Pairwise (· < ·) := table.sorted

theorem keys_nodup (table : Table α) : table.keys.Nodup := by
  refine table.keys_sorted.imp ?_
  rintro _ _ less rfl
  exact String.lt_irrefl _ less

/-- Sorted lists with the same look-ups are the same: each begins with the least key. -/
theorem eq_of_findIn {first second : List (String × α)}
    (sorted : (first.map Prod.fst).Pairwise (· < ·))
    (sorted' : (second.map Prod.fst).Pairwise (· < ·))
    (same : ∀ key, findIn key first = findIn key second) : first = second := by
  induction first generalizing second with
  | nil =>
    cases second with
    | nil => rfl
    | cons other rest => simpa [findIn] using same other.1
  | cons entry rest ih =>
    cases second with
    | nil => simpa [findIn] using same entry.1
    | cons other rest' =>
      obtain ⟨least, tail⟩ := List.pairwise_cons.mp sorted
      obtain ⟨least', tail'⟩ := List.pairwise_cons.mp sorted'
      have keys (key : String) :
          key ∈ (entry :: rest).map Prod.fst ↔ key ∈ (other :: rest').map Prod.fst := by
        rw [mem_map_fst_iff, mem_map_fst_iff, same]
      have head : entry.1 = other.1 := by
        rcases List.mem_cons.mp ((keys entry.1).mp List.mem_cons_self) with first | later
        · exact first
        rcases List.mem_cons.mp ((keys other.1).mpr List.mem_cons_self) with first | later'
        · exact first.symm
        exact absurd (least _ later') (String.lt_asymm (least' _ later))
      have value : entry.2 = other.2 := by simpa [findIn, head] using same entry.1
      have missing : findIn entry.1 rest = none := Option.not_isSome_iff_eq_none.mp
        (mt mem_map_fst_iff.mpr fun member => String.lt_irrefl _ (least _ member))
      have missing' : findIn entry.1 rest' = none := Option.not_isSome_iff_eq_none.mp
        (mt mem_map_fst_iff.mpr fun member => String.lt_irrefl _ (head ▸ least' _ member))
      have rests (key : String) : findIn key rest = findIn key rest' := by
        by_cases here : key = entry.1
        · rw [here, missing, missing']
        · have elsewhere : key ≠ other.1 := head ▸ here
          simpa [findIn, here, elsewhere] using same key
      rw [Prod.ext head value, ih tail tail' rests]

theorem eq_of_find? {first second : Table α} (same : ∀ key, first.find? key = second.find? key) :
    first = second := by
  obtain ⟨entries, sorted⟩ := first
  obtain ⟨entries', sorted'⟩ := second
  have entries : entries = entries' := eq_of_findIn sorted sorted' same
  subst entries
  rfl

end Table

/-- A finite set of names, listed in increasing order. -/
abbrev NameSet := Table Unit

namespace NameSet

def add (names : NameSet) (name : String) : NameSet := Table.insert names name ()

def ofNames (names : List String) : NameSet := names.foldl add Table.empty

theorem mem_add {names : NameSet} {name other : String} :
    other ∈ names.add name ↔ other = name ∨ other ∈ names := by
  rw [Table.mem_iff, add, Table.find?_insert, Table.mem_iff]
  by_cases same : other = name <;> simp [same]

end NameSet

end LiveBindings
