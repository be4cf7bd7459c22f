import LiveBindings.Proofs.Nesting
import Mathlib.Algebra.Group.Nat.Defs
import Mathlib.Data.List.Forall2
import Mathlib.Data.List.Perm.Basic
import Mathlib.Order.Monotone.Basic

namespace LiveBindings

namespace Number

variable {fraction : Nat}

theorem unitsOf_fraction (small : fraction < 2 ^ 52) : unitsOf fraction = fraction := if_pos small

theorem unitsOf_parts (small : fraction < 2 ^ 52) (exponent : Nat) :
    unitsOf (2 ^ 52 * (exponent + 1) + fraction) = (2 ^ 52 + fraction) * 2 ^ exponent := by
  have large : ¬ 2 ^ 52 * (exponent + 1) + fraction < 2 ^ 52 := by omega
  have shift : (2 ^ 52 * (exponent + 1) + fraction) / 2 ^ 52 - 1 = exponent := by omega
  have rest : (2 ^ 52 * (exponent + 1) + fraction) % 2 ^ 52 = fraction := by omega
  rw [unitsOf, Nat.pow_eq, if_neg large, rest, shift, Nat.pow_eq]

/-- A magnitude without an exponent is a fraction, and any other one has an exponent before it. -/
theorem magnitude_cases (magnitude : Nat) : magnitude < 2 ^ 52 ∨
    ∃ exponent fraction, fraction < 2 ^ 52 ∧ magnitude = 2 ^ 52 * (exponent + 1) + fraction := by
  by_cases low : magnitude < 2 ^ 52
  · exact .inl low
  · exact .inr ⟨magnitude / 2 ^ 52 - 1, magnitude % 2 ^ 52, by omega, by omega⟩

/-- The next magnitude stands for more units: its fraction is greater by one, or its exponent is and the
fraction begins anew. -/
theorem unitsOf_lt_succ (magnitude : Nat) : unitsOf magnitude < unitsOf (magnitude + 1) := by
  have begins : 0 < 2 ^ 52 := Nat.two_pow_pos 52
  obtain low | ⟨exponent, fraction, small, rfl⟩ := magnitude_cases magnitude
  · rw [unitsOf_fraction low]
    obtain inside | carries : magnitude + 1 < 2 ^ 52 ∨ magnitude + 1 = 2 ^ 52 * (0 + 1) + 0 := by omega
    · rw [unitsOf_fraction inside]
      omega
    · rw [carries, unitsOf_parts begins]
      omega
  · rw [unitsOf_parts small, Nat.add_assoc]
    obtain inside | carries : fraction + 1 < 2 ^ 52 ∨ fraction + 1 = 2 ^ 52 := by omega
    · rw [unitsOf_parts inside]
      exact Nat.mul_lt_mul_of_pos_right (by omega) (Nat.two_pow_pos exponent)
    · have next : 2 ^ 52 * (exponent + 1) + (fraction + 1) = 2 ^ 52 * (exponent + 1 + 1) + 0 := by omega
      have doubled : 2 ^ (exponent + 1) = 2 * 2 ^ exponent := by rw [Nat.pow_succ, Nat.mul_comm]
      rw [next, unitsOf_parts begins, doubled, ← Nat.mul_assoc]
      exact Nat.mul_lt_mul_of_pos_right (by omega) (Nat.two_pow_pos exponent)

theorem unitsOf_strictMono : StrictMono unitsOf := strictMono_nat_of_lt_succ unitsOf_lt_succ

/-- What a number stands for, in units of `2 ^ (-1074)`. An infinity counts as the least power of two
that is out of range. -/
def scaled (n : Number) : Int := if n.isNegative then -(n.units : Int) else n.units

variable {a b : Number}

theorem bits_eq_iff : a.bits = b.bits ↔ a.isNegative = b.isNegative ∧ a.magnitude = b.magnitude := by
  have bound := a.bits.toNat_lt
  have bound' := b.bits.toNat_lt
  rw [← UInt64.toNat_inj]
  simp only [isNegative, magnitude, Nat.pow_eq]
  constructor
  · intro same
    rw [same]
    exact ⟨rfl, rfl⟩
  · rintro ⟨sign, magnitude⟩
    rw [decide_eq_decide] at sign
    omega

theorem units_eq_iff : a.units = b.units ↔ a.magnitude = b.magnitude :=
  unitsOf_strictMono.injective.eq_iff

theorem units_eq_zero_iff : a.units = 0 ↔ a.isZero = true := by
  have zero : unitsOf 0 = 0 := rfl
  rw [isZero, beq_iff_eq, units, ← zero]
  exact unitsOf_strictMono.injective.eq_iff

/-- Two numbers stand for the same when their bits are the same, and so do the two zeros. -/
theorem scaled_eq_iff : a.scaled = b.scaled ↔ a.bits = b.bits ∨ a.isZero = true ∧ b.isZero = true := by
  rw [bits_eq_iff, ← units_eq_iff, ← units_eq_zero_iff, ← units_eq_zero_iff]
  unfold scaled
  cases a.isNegative <;> cases b.isNegative <;> simp <;> omega

theorem equal_iff : a.equal b = true ↔ a.isNaN = false ∧ b.isNaN = false ∧ a.scaled = b.scaled := by
  simp [equal, scaled_eq_iff, and_assoc]

end Number

namespace Table

theorem findIn_eq_some_iff {α : Type} {list : List (String × α)} (apart : (list.map Prod.fst).Nodup)
    {key : String} {value : α} : findIn key list = some value ↔ (key, value) ∈ list := by
  induction list with
  | nil => simp [findIn]
  | cons entry rest ih =>
    obtain ⟨fresh, apart⟩ := List.nodup_cons.mp apart
    rw [findIn, List.mem_cons]
    split
    · next here =>
      have absent : (entry.1, value) ∉ rest := fun member => fresh (List.mem_map.mpr ⟨_, member, rfl⟩)
      simp [Prod.ext_iff, here, absent, eq_comm]
    · next elsewhere => simp [Prod.ext_iff, elsewhere, ih apart]

variable {α β : Type} {first : Table α} {second : Table β}

theorem find?_eq_some_iff {key : String} {value : α} :
    first.find? key = some value ↔ (key, value) ∈ first.entries := findIn_eq_some_iff first.keys_nodup

theorem keys_eq_iff : first.keys = second.keys ↔ ∀ key, key ∈ first ↔ key ∈ second := by
  constructor
  · intro same key
    rw [← mem_keys, ← mem_keys, same]
  · intro same
    have alike : first.keys.Perm second.keys :=
      (List.perm_ext_iff_of_nodup first.keys_nodup second.keys_nodup).mpr fun key => by
        rw [mem_keys, mem_keys, same]
    exact alike.eq_of_pairwise (fun _ _ _ _ less greater => absurd greater (String.lt_asymm less))
      first.keys_sorted second.keys_sorted

/-- Tables are related entry by entry when they have the same keys and are related key by key, because
the entries stand in the order of the keys. -/
theorem forall₂_entries_iff (related : α → β → Prop) :
    List.Forall₂ (fun a b => a.1 = b.1 ∧ related a.2 b.2) first.entries second.entries ↔
      (∀ key, key ∈ first ↔ key ∈ second) ∧
        ∀ key a b, first.find? key = some a → second.find? key = some b → related a b := by
  have names : List.Forall₂ (fun a b => a.1 = b.1) first.entries second.entries ↔
      first.keys = second.keys := by
    rw [keys, keys, ← List.forall₂_eq_eq_eq, List.forall₂_map_left_iff, List.forall₂_map_right_iff]
  rw [← keys_eq_iff, ← names]
  constructor
  · intro pairs
    refine ⟨pairs.imp fun _ _ both => both.1, fun key a b found found' => ?_⟩
    obtain ⟨place, inside, here⟩ := List.mem_iff_getElem.mp (find?_eq_some_iff.mp found)
    have inside' : place < second.entries.length := pairs.length_eq ▸ inside
    obtain ⟨same, both⟩ := pairs.get inside inside'
    rw [List.get_eq_getElem, List.get_eq_getElem, here] at same both
    have again : second.find? key = some second.entries[place].2 := by
      rw [show key = second.entries[place].1 from same, find?_eq_some_iff]
      exact List.getElem_mem inside'
    rw [found', Option.some_inj] at again
    rwa [again]
  · rintro ⟨same, values⟩
    obtain ⟨length, same⟩ := List.forall₂_iff_zip.mp same
    refine List.forall₂_iff_zip.mpr ⟨length, fun {entry entry'} member => ⟨same member, ?_⟩⟩
    obtain ⟨inside, inside'⟩ := List.of_mem_zip member
    exact values entry.1 entry.2 entry'.2 (find?_eq_some_iff.mpr inside)
      (find?_eq_some_iff.mpr (same member ▸ inside'))

end Table

namespace Value

variable {a b c : Value}

theorem equal_array_iff {items items' : List Value} :
    (array items).equal (array items') = true ↔
      List.Forall₂ (fun a b => a.equal b = true) items items' := by
  induction items generalizing items' with
  | nil =>
    cases items' with
    | nil => exact iff_of_true rfl .nil
    | cons item' rest' => exact iff_of_false Bool.false_ne_true fun pairs => by cases pairs
  | cons item rest ih =>
    cases items' with
    | nil => exact iff_of_false Bool.false_ne_true fun pairs => by cases pairs
    | cons item' rest' =>
      have unfolded : (array (item :: rest)).equal (array (item' :: rest')) =
        (item.equal item' && (array rest).equal (array rest')) := rfl
      rw [List.forall₂_cons, ← ih, unfolded, Bool.and_eq_true]

theorem equal_object_iff {fields fields' : List (String × Value)} :
    (object fields).equal (object fields') = true ↔
      List.Forall₂ (fun a b => a.1 = b.1 ∧ a.2.equal b.2 = true) fields fields' := by
  induction fields generalizing fields' with
  | nil =>
    cases fields' with
    | nil => exact iff_of_true rfl .nil
    | cons field' rest' => exact iff_of_false Bool.false_ne_true fun pairs => by cases pairs
  | cons field rest ih =>
    cases fields' with
    | nil => exact iff_of_false Bool.false_ne_true fun pairs => by cases pairs
    | cons field' rest' =>
      have unfolded : (object (field :: rest)).equal (object (field' :: rest')) =
        (field.1 == field'.1 && field.2.equal field'.2 && (object rest).equal (object rest')) := rfl
      rw [List.forall₂_cons, ← ih, unfolded, Bool.and_eq_true, Bool.and_eq_true, beq_iff_eq]

theorem equal_number_iff {m n : Number} : (number m).equal (number n) = true ↔
    m.isNaN = false ∧ n.isNaN = false ∧ m.scaled = n.scaled := Number.equal_iff

theorem equal_function_iff {name name' : String} {id id' : FunctionId} :
    (function name id).equal (function name' id') = true ↔ id = id' := beq_iff_eq

/-- Undefined, null, a boolean or a string. -/
def isPlain : Value → Bool
  | .undefined | .null | .boolean _ | .string _ => true
  | _ => false

/-- A plain value equals itself and nothing else. -/
theorem equal_iff_of_plain (plain : a.isPlain = true) : a.equal b = true ↔ b = a := by
  constructor
  · intro same
    cases a with
    | undefined | null => cases b <;> first | rfl | cases same
    | boolean value =>
      cases b with
      | boolean value' => exact congrArg boolean (eq_of_beq same).symm
      | _ => cases same
    | string value =>
      cases b with
      | string value' => exact congrArg string (eq_of_beq same).symm
      | _ => cases same
    | _ => cases plain
  · rintro rfl
    cases b with
    | undefined | null => rfl
    | boolean value | string value => exact beq_self_eq_true value
    | _ => cases plain

theorem exists_of_array_equal {items : List Value} (same : (array items).equal b = true) :
    ∃ items', b = array items' ∧ List.Forall₂ (fun a b => a.equal b = true) items items' := by
  cases b with
  | array items' => exact ⟨items', rfl, equal_array_iff.mp same⟩
  | _ => cases same

theorem exists_of_object_equal {fields : List (String × Value)}
    (same : (object fields).equal b = true) : ∃ fields', b = object fields' ∧
      List.Forall₂ (fun a b => a.1 = b.1 ∧ a.2.equal b.2 = true) fields fields' := by
  cases b with
  | object fields' => exact ⟨fields', rfl, equal_object_iff.mp same⟩
  | _ => cases same

theorem exists_of_number_equal {n : Number} (same : (number n).equal b = true) :
    ∃ n', b = number n' ∧ n.isNaN = false ∧ n'.isNaN = false ∧ n.scaled = n'.scaled := by
  cases b with
  | number n' => exact ⟨n', rfl, equal_number_iff.mp same⟩
  | _ => cases same

theorem exists_of_function_equal {name : String} {id : FunctionId}
    (same : (function name id).equal b = true) : ∃ name', b = function name' id := by
  cases b with
  | function name' id' => exact ⟨name', by rw [equal_function_iff.mp same]⟩
  | _ => cases same

theorem equal_symm (same : a.equal b = true) : b.equal a = true := by
  induction a generalizing b with
  | undefined | null | boolean value | string value =>
    rw [(equal_iff_of_plain rfl).mp same, equal_iff_of_plain rfl]
  | number n =>
    obtain ⟨n', rfl, proper, proper', stands⟩ := exists_of_number_equal same
    exact equal_number_iff.mpr ⟨proper', proper, stands.symm⟩
  | array items ih =>
    obtain ⟨items', rfl, pairs⟩ := exists_of_array_equal same
    have both := (List.forall₂_and_left _ _).mpr ⟨ih, pairs⟩
    exact equal_array_iff.mpr (both.imp fun _ _ both => both.1 both.2).flip
  | object fields ih =>
    obtain ⟨fields', rfl, pairs⟩ := exists_of_object_equal same
    have both := (List.forall₂_and_left _ _).mpr ⟨ih, pairs⟩
    exact equal_object_iff.mpr
      (both.imp fun _ _ both => ⟨both.2.1.symm, both.1 both.2.2⟩).flip
  | function name id =>
    obtain ⟨name', rfl⟩ := exists_of_function_equal same
    exact equal_function_iff.mpr rfl

/-- A relation that two others compose to on the elements of a list relates the lists that they relate. -/
theorem forall₂_compose {α β γ : Type} {P : α → β → Prop} {Q : β → γ → Prop} {R : α → γ → Prop}
    {first : List α} {second : List β} {third : List γ}
    (composes : ∀ x ∈ first, ∀ y z, P x y → Q y z → R x z) (pairs : List.Forall₂ P first second)
    (pairs' : List.Forall₂ Q second third) : List.Forall₂ R first third := by
  induction pairs generalizing third with
  | nil =>
    cases pairs'
    exact .nil
  | cons head _ ih =>
    obtain _ | ⟨head', tail'⟩ := pairs'
    exact .cons (composes _ List.mem_cons_self _ _ head head')
      (ih (fun x member => composes x (List.mem_cons_of_mem _ member)) tail')

theorem equal_trans (same : a.equal b = true) (same' : b.equal c = true) : a.equal c = true := by
  induction a generalizing b c with
  | undefined | null | boolean value | string value =>
    rwa [(equal_iff_of_plain rfl).mp same] at same'
  | number n =>
    obtain ⟨n', rfl, proper, -, stands⟩ := exists_of_number_equal same
    obtain ⟨n'', rfl, -, proper'', stands'⟩ := exists_of_number_equal same'
    exact equal_number_iff.mpr ⟨proper, proper'', stands.trans stands'⟩
  | array items ih =>
    obtain ⟨items', rfl, pairs⟩ := exists_of_array_equal same
    obtain ⟨items'', rfl, pairs'⟩ := exists_of_array_equal same'
    refine equal_array_iff.mpr (forall₂_compose ?_ pairs pairs')
    exact fun item member _ _ => ih item member
  | object fields ih =>
    obtain ⟨fields', rfl, pairs⟩ := exists_of_object_equal same
    obtain ⟨fields'', rfl, pairs'⟩ := exists_of_object_equal same'
    refine equal_object_iff.mpr (forall₂_compose ?_ pairs pairs')
    exact fun field member _ _ first second =>
      ⟨first.1.trans second.1, ih field member first.2 second.2⟩
  | function name id =>
    obtain ⟨name', rfl⟩ := exists_of_function_equal same
    obtain ⟨name'', rfl⟩ := exists_of_function_equal same'
    exact equal_function_iff.mpr rfl

/-- A value equals itself unless something in it, at whatever depth, is not a number. -/
theorem equal_self_iff : a.equal a = true ↔ ∀ n, a.Contains (.number n) → n.isNaN = false := by
  induction a with
  | undefined | null | boolean value | string value =>
    exact iff_of_true ((equal_iff_of_plain rfl).mpr rfl) fun _ inside => nomatch inside
  | number n => simp [equal_number_iff, contains_number_number]
  | array items ih =>
    simp only [equal_array_iff, List.forall₂_same, contains_array_number]
    grind
  | object fields ih =>
    simp only [equal_object_iff, List.forall₂_same, contains_object_number]
    grind
  | function name id =>
    exact iff_of_true (equal_function_iff.mpr rfl) fun _ inside => nomatch inside

theorem forall₂_iff_getElem? {α β : Type} {related : α → β → Prop} {first : List α} {second : List β} :
    List.Forall₂ related first second ↔ first.length = second.length ∧
      ∀ (place : Nat) a b, first[place]? = some a → second[place]? = some b → related a b := by
  rw [List.forall₂_iff_get]
  refine and_congr_right fun _ => ⟨fun pairs place a b here here' => ?_, fun pairs place h h' => ?_⟩
  · obtain ⟨inside, rfl⟩ := List.getElem?_eq_some_iff.mp here
    obtain ⟨inside', rfl⟩ := List.getElem?_eq_some_iff.mp here'
    exact pairs place inside inside'
  · exact pairs place _ _ (List.getElem?_eq_getElem h) (List.getElem?_eq_getElem h')

/-- The equality of values at every depth, as laws of the whole of it. -/
theorem equal_laws :
    (∀ a b : Value, a.equal b = true → b.equal a = true) ∧
    (∀ a b c : Value, a.equal b = true → b.equal c = true → a.equal c = true) ∧
    (∀ a : Value, a.equal a = true ↔ ∀ n, a.Contains (.number n) → n.isNaN = false) ∧
    (∀ items items' : List Value, (array items).equal (array items') = true ↔
      items.length = items'.length ∧
      ∀ (place : Nat) a b, items[place]? = some a → items'[place]? = some b → a.equal b = true) ∧
    (∀ fields fields' : Table Value, (ofFields fields).equal (ofFields fields') = true ↔
      (∀ key, key ∈ fields ↔ key ∈ fields') ∧
      ∀ key a b, fields.find? key = some a → fields'.find? key = some b → a.equal b = true) ∧
    (∀ m n : Number, (number m).equal (number n) = true ↔
      m.isNaN = false ∧ n.isNaN = false ∧ m.scaled = n.scaled) ∧
    ∀ (name name' : String) (id id' : FunctionId),
      (function name id).equal (function name' id') = true ↔ id = id' := by
  refine ⟨fun _ _ => equal_symm, fun _ _ _ => equal_trans, fun _ => equal_self_iff, ?_, ?_,
    fun _ _ => equal_number_iff, fun _ _ _ _ => equal_function_iff⟩
  · intro items items'
    exact equal_array_iff.trans forall₂_iff_getElem?
  · intro fields fields'
    exact equal_object_iff.trans (Table.forall₂_entries_iff fun a b : Value => a.equal b = true)

/-- The two zeros and two names of one function make no difference inside an array, and what is not a
number makes one at any depth. -/
theorem equal_laws_of_zeros :
    (array [.number (.zero true), .function "g" 0]).equal
      (array [.number (.zero false), .function "f" 0]) = true ∧
    ¬ (array [.array [.number .nan]]).equal (array [.array [.number .nan]]) = true := by
  obtain ⟨symm, -, reflexive, -⟩ := equal_laws
  refine ⟨symm _ _ rfl, fun same => ?_⟩
  have inside : (array [.array [.number .nan]]).Contains (.number .nan) :=
    .item List.mem_cons_self (.item List.mem_cons_self (.self _))
  exact absurd ((reflexive _).mp same .nan inside) (by decide)

end Value

end LiveBindings
