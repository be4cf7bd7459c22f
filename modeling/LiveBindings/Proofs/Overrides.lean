import LiveBindings.Config.Environment
import Mathlib.Data.List.DropRight
import Mathlib.Logic.Function.Basic

namespace LiveBindings

theorem isBlank_of_letter {c : Char} (low : 65 ≤ c.toNat) (high : c.toNat ≤ 122) :
    isBlank c = false := by
  simp only [isBlank, Bool.or_eq_false_iff, Bool.and_eq_false_iff, decide_eq_false_iff_not,
    beq_eq_false_iff_ne]
  omega

/-- No capital letter is blank, and neither is its small form. -/
theorem isBlank_toLower (c : Char) : isBlank c.toLower = isBlank c := by
  unfold Char.toLower
  split
  · next capital =>
    have low : 65 ≤ c.val.toNat := capital.1
    have high : c.val.toNat ≤ 90 := capital.2
    have shift : ('a'.val - 'A'.val).toNat = 32 := rfl
    have small : (c.val + ('a'.val - 'A'.val)).toNat = c.val.toNat + 32 := by
      rw [UInt32.toNat_add, shift, Nat.mod_eq_of_lt (by omega)]
    rw [isBlank_of_letter (c := c) low (high.trans (by decide))]
    refine isBlank_of_letter ?_ ?_
    · exact (show 65 ≤ c.val.toNat + 32 by omega).trans small.ge
    · exact small.le.trans (by omega)
  · rfl

section Trimming

variable {before core after : List Char}

theorem trimBlanks_eq (chars : List Char) :
    trimBlanks chars = (chars.dropWhile isBlank).rdropWhile isBlank := rfl

theorem map_toLower_trimBlanks (chars : List Char) :
    (trimBlanks chars).map Char.toLower = trimBlanks (chars.map Char.toLower) := by
  have same : isBlank ∘ Char.toLower = isBlank := funext isBlank_toLower
  simp only [trimBlanks, List.dropWhile_map, ← List.map_reverse, same]

/-- Blanks around a text are gone once it is trimmed, whatever the text itself begins and ends with. -/
theorem trimBlanks_append (blank : ∀ c ∈ before ++ after, isBlank c = true) :
    trimBlanks (before ++ core ++ after) = trimBlanks core := by
  obtain ⟨blank, blank'⟩ := List.forall_mem_append.mp blank
  have none_left : after.dropWhile isBlank = [] := List.dropWhile_eq_nil_iff.mpr blank'
  rw [trimBlanks_eq, trimBlanks_eq, List.append_assoc, List.dropWhile_append_of_pos blank,
    List.dropWhile_append]
  split
  · next all => rw [none_left, List.isEmpty_iff.mp all]
  · have blank_reversed : ∀ c ∈ after.reverse, isBlank c = true := by simpa using blank'
    rw [List.rdropWhile, List.reverse_append, List.dropWhile_append_of_pos blank_reversed,
      List.rdropWhile]

theorem trimBlanks_of_ends (first : ∀ c ∈ core.head?, isBlank c = false)
    (last : ∀ c ∈ core.getLast?, isBlank c = false) : trimBlanks core = core := by
  have kept : core.dropWhile isBlank = core := by
    refine List.dropWhile_eq_self_iff.mpr fun inside => ?_
    rw [first core[0] (List.head?_eq_getElem? ▸ List.getElem?_eq_getElem inside)]
    exact Bool.false_ne_true
  rw [trimBlanks_eq, kept, List.rdropWhile_eq_self_iff]
  intro nonempty
  rw [last _ (List.getLast?_eq_some_getLast nonempty)]
  exact Bool.false_ne_true

theorem exists_trimBlanks (chars : List Char) : ∃ before after : List Char,
    chars = before ++ trimBlanks chars ++ after ∧ (∀ c ∈ before ++ after, isBlank c = true) ∧
    (∀ c ∈ (trimBlanks chars).head?, isBlank c = false) ∧
    ∀ c ∈ (trimBlanks chars).getLast?, isBlank c = false := by
  refine ⟨chars.takeWhile isBlank, (chars.dropWhile isBlank).rtakeWhile isBlank, ?_, ?_, ?_, ?_⟩
  · rw [trimBlanks_eq, List.append_assoc, List.rdropWhile_append_rtakeWhile,
      List.takeWhile_append_dropWhile]
  · exact List.forall_mem_append.mpr
      ⟨fun _ => List.mem_takeWhile_imp, fun _ => List.mem_rtakeWhile_imp⟩
  · intro c first
    obtain ⟨rest, parts⟩ := List.rdropWhile_prefix isBlank (l := chars.dropWhile isBlank)
    have unblank := List.head?_dropWhile_not isBlank chars
    rw [← parts, List.head?_append, ← trimBlanks_eq, first] at unblank
    exact unblank
  · intro c last
    obtain ⟨nonempty, rfl⟩ := List.mem_getLast?_eq_getLast last
    exact eq_false_of_ne_true (List.rdropWhile_last_not isBlank _ nonempty)

end Trimming

/-- The word that a text spells: what stands between the blanks at its two ends, in small letters. -/
def Spells (text word : String) : Prop :=
  ∃ before core after : String, text = before ++ core ++ after ∧
    (∀ c ∈ before.toList ++ after.toList, isBlank c = true) ∧
    (∀ c ∈ core.toList.head?, isBlank c = false) ∧
    (∀ c ∈ core.toList.getLast?, isBlank c = false) ∧ word = lowered core

/-- The second text is the first with more blanks around it and with capitals elsewhere. -/
def Varies (text variant : String) : Prop :=
  ∃ before middle after : String, variant = before ++ middle ++ after ∧
    (∀ c ∈ before.toList ++ after.toList, isBlank c = true) ∧ lowered middle = lowered text

theorem spells_iff {text word : String} : Spells text word ↔ word = lowered (trimmed text) := by
  constructor
  · rintro ⟨before, core, after, rfl, blank, first, last, rfl⟩
    rw [trimmed, String.toList_append, String.toList_append, trimBlanks_append blank,
      trimBlanks_of_ends first last, String.ofList_toList]
  · rintro rfl
    obtain ⟨before, after, parts, blank, first, last⟩ := exists_trimBlanks text.toList
    refine ⟨.ofList before, trimmed text, .ofList after, ?_, ?_, ?_, ?_, rfl⟩
    · rw [← String.toList_inj]
      simpa [trimmed] using parts
    all_goals simpa only [trimmed, String.toList_ofList]

theorem toList_lowered_trimmed (text : String) :
    (lowered (trimmed text)).toList = trimBlanks (lowered text).toList := by
  simp only [lowered, trimmed, String.toList_ofList, map_toLower_trimBlanks]

theorem Varies.lowered_trimmed_eq {text variant : String} (varies : Varies text variant) :
    lowered (trimmed variant) = lowered (trimmed text) := by
  obtain ⟨before, middle, after, rfl, blank, same⟩ := varies
  have blank : ∀ c ∈ (lowered before).toList ++ (lowered after).toList, isBlank c = true := by
    simpa [lowered, isBlank_toLower, or_imp, forall_and] using blank
  have parts : (lowered (before ++ middle ++ after)).toList =
      (lowered before).toList ++ (lowered middle).toList ++ (lowered after).toList := by
    simp [lowered]
  rw [← String.toList_inj, toList_lowered_trimmed, toList_lowered_trimmed, parts,
    trimBlanks_append blank, same]

namespace Policy

/-- The words that name a policy. -/
inductive Named : String → Policy → Prop
  | undefined : Named "undefined" .lenient
  | lenient : Named "lenient" .lenient
  | strict : Named "strict" .strict

variable {text : String} {policy : Policy} {fault : Fault}

theorem named_iff {word : String} : Named word policy ↔
    (word = "undefined" ∨ word = "lenient") ∧ policy = .lenient ∨ word = "strict" ∧ policy = .strict := by
  constructor
  · rintro (_ | _ | _) <;> simp
  · rintro (⟨rfl | rfl, rfl⟩ | ⟨rfl, rfl⟩)
    exacts [.undefined, .lenient, .strict]

theorem ofText_eq_ok_iff :
    ofText text = .ok policy ↔ ∃ word, Spells text word ∧ Named word policy := by
  simp only [spells_iff, exists_eq_left, named_iff, ofText, Bool.or_eq_true, decide_eq_true_eq]
  generalize lowered (trimmed text) = word
  by_cases lenient : word = "undefined" ∨ word = "lenient"
  · have other : word ≠ "strict" := by
      rcases lenient with rfl | rfl <;> decide
    simp [lenient, other, eq_comm]
  · by_cases strict : word = "strict" <;> simp [lenient, strict, eq_comm]

theorem ofText_eq_error_iff : ofText text = .error fault ↔
    ∃ word, Spells text word ∧ word ∉ ["undefined", "lenient", "strict"] ∧
      fault = .configuration ("unknown unresolved policy '" ++ word ++ "'") := by
  simp only [spells_iff, exists_eq_left, ofText, Bool.or_eq_true, decide_eq_true_eq]
  generalize lowered (trimmed text) = word
  by_cases lenient : word = "undefined" ∨ word = "lenient"
  · simp [lenient, ← or_assoc]
  · by_cases strict : word = "strict" <;> simp [lenient, strict, eq_comm]

theorem ofText_of_varies {variant : String} (varies : Varies text variant) :
    ofText variant = ofText text := by
  rw [ofText, varies.lowered_trimmed_eq, ofText]

end Policy

namespace Config

/-- What an environment makes of a configuration: each member is the overriding one, if there is one,
and stays otherwise. -/
structure Overridden (base : Config) (environment : Environment) (config : Config) : Prop where
  policy : (∃ text word, environment policyVariable = .text text ∧ Spells text word ∧
      Policy.Named word config.policy) ∨
    (∀ text, environment policyVariable ≠ .text text) ∧ config.policy = base.policy
  label : (∃ label, environment labelVariable = .text label ∧ label ≠ "" ∧ config.label = some label) ∨
    (∀ label, environment labelVariable = .text label → label = "") ∧ config.label = base.label

variable {base config : Config} {environment : Environment} {fault : Fault}

theorem mergedPolicy_eq_ok_iff {policy base : Policy} : mergedPolicy base environment = .ok policy ↔
    (∃ text word, environment policyVariable = .text text ∧ Spells text word ∧ Policy.Named word policy) ∨
      (∀ text, environment policyVariable ≠ .text text) ∧ policy = base := by
  rw [mergedPolicy]
  cases environment policyVariable with
  | text text => simp [Setting.text?, Policy.ofText_eq_ok_iff]
  | _ => simp [Setting.text?, eq_comm]

theorem mergedPolicy_eq_error_iff {base : Policy} : mergedPolicy base environment = .error fault ↔
    ∃ text, environment policyVariable = .text text ∧ Policy.ofText text = .error fault := by
  rw [mergedPolicy]
  cases environment policyVariable <;> simp [Setting.text?]

theorem mergedLabel_eq_iff {label base : Option String} : mergedLabel base environment = label ↔
    (∃ text, environment labelVariable = .text text ∧ text ≠ "" ∧ label = some text) ∨
      (∀ text, environment labelVariable = .text text → text = "") ∧ label = base := by
  rw [mergedLabel]
  cases environment labelVariable with
  | text text => by_cases empty : text = "" <;> simp [Setting.text?, empty, eq_comm]
  | _ => simp [Setting.text?, eq_comm]

theorem merge_eq_ok_iff : base.merge environment = .ok config ↔ Overridden base environment config := by
  have split : base.merge environment = .ok config ↔
      mergedPolicy base.policy environment = .ok config.policy ∧
        mergedLabel base.label environment = config.label := by
    obtain ⟨label, policy⟩ := config
    rw [merge]
    cases mergedPolicy base.policy environment <;> simp [and_comm]
  rw [split, mergedPolicy_eq_ok_iff, mergedLabel_eq_iff]
  exact ⟨fun both => ⟨both.1, both.2⟩, fun overridden => ⟨overridden.policy, overridden.label⟩⟩

theorem merge_eq_error_iff : base.merge environment = .error fault ↔
    ∃ text, environment policyVariable = .text text ∧ Policy.ofText text = .error fault := by
  rw [← mergedPolicy_eq_error_iff, merge]
  cases mergedPolicy base.policy environment <;> simp

/-- What overrode a member once overrides it again, and what was kept has nothing that overrides it. -/
theorem Overridden.again (overridden : Overridden base environment config) :
    Overridden config environment config where
  policy := overridden.policy.imp_right fun kept => ⟨kept.1, rfl⟩
  label := overridden.label.imp_right fun kept => ⟨kept.1, rfl⟩

theorem merge_update_of_varies {text variant : String} (set : environment policyVariable = .text text)
    (varies : Varies text variant) :
    base.merge (Function.update environment policyVariable (.text variant)) = base.merge environment := by
  have apart : labelVariable ≠ policyVariable := by decide
  simp [merge, mergedPolicy, mergedLabel, Function.update_of_ne apart, set, Setting.text?,
    Policy.ofText_of_varies varies]

/-- An environment's overrides: the one fault is a text for the policy that spells no policy's name, and
is told with the word that it spells; merging again changes nothing, and neither do capitals in that
text and blanks around it. -/
theorem environment_overrides (base : Config) (environment : Environment) :
    (∀ fault, base.merge environment = .error fault ↔
      ∃ text word, environment policyVariable = .text text ∧ Spells text word ∧
        word ∉ ["undefined", "lenient", "strict"] ∧
        fault = .configuration ("unknown unresolved policy '" ++ word ++ "'")) ∧
    (∀ config, base.merge environment = .ok config ↔ Overridden base environment config) ∧
    (base.merge environment).bind (fun config => config.merge environment) = base.merge environment ∧
    ∀ text variant, environment policyVariable = .text text → Varies text variant →
      base.merge (Function.update environment policyVariable (.text variant)) =
        base.merge environment := by
  refine ⟨fun fault => ?_, fun _ => merge_eq_ok_iff, ?_, fun _ _ => merge_update_of_varies⟩
  · simp only [merge_eq_error_iff, Policy.ofText_eq_error_iff, exists_and_left]
  · cases merged : base.merge environment with
    | ok config => exact merge_eq_ok_iff.mpr (merge_eq_ok_iff.mp merged).again
    | error fault => rfl

/-- A shouted policy between blanks is the policy, and an empty label leaves the one that was there. -/
theorem environment_overrides_of_shouted :
    Varies "strict" "\u3000STRICT\n" ∧
    (⟨some "m.js", .lenient⟩ : Config).merge
      (Function.update (fun name => if name = policyVariable then .text "strict" else .text "")
        policyVariable (.text "\u3000STRICT\n")) = .ok ⟨some "m.js", .strict⟩ := by
  have varies : Varies "strict" "\u3000STRICT\n" :=
    ⟨"\u3000", "STRICT", "\n", by decide, List.all_eq_true.mp (by decide), by decide⟩
  have apart : labelVariable ≠ policyVariable := by decide
  obtain ⟨-, accepts, -, unmoved⟩ := environment_overrides ⟨some "m.js", .lenient⟩
    fun name => if name = policyVariable then .text "strict" else .text ""
  refine ⟨varies, (unmoved "strict" _ (if_pos rfl) varies).trans ((accepts _).mpr ⟨.inl ?_, .inr ?_⟩)⟩
  · exact ⟨"strict", "strict", if_pos rfl, spells_iff.mpr (by decide), .strict⟩
  · rw [if_neg apart]
    exact ⟨fun label same => (Setting.text.inj same).symm, rfl⟩

end Config

end LiveBindings
