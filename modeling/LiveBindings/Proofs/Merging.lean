import LiveBindings.Operation
import LiveBindings.Proofs.Names
import Mathlib.Data.List.Induction

namespace LiveBindings

open Machine

variable {σ : Type}

/-- Where the members of a list have the same results, if they have any, the order does not matter. -/
theorem findSome?_of_perm {α β : Type} {f : α → Option β} {first second : List α}
    (perm : first.Perm second)
    (agree : ∀ one ∈ first, ∀ other ∈ first, ∀ x y, f one = some x → f other = some y → x = y) :
    first.findSome? f = second.findSome? f := by
  cases found : first.findSome? f with
  | none =>
    rw [eq_comm, List.findSome?_eq_none_iff]
    intro other member
    exact List.findSome?_eq_none_iff.mp found other (perm.mem_iff.mpr member)
  | some x =>
    obtain ⟨one, member, has⟩ := List.exists_of_findSome?_eq_some found
    cases found' : second.findSome? f with
    | none =>
      have misses := List.findSome?_eq_none_iff.mp found' one (perm.mem_iff.mp member)
      cases has.symm.trans misses
    | some y =>
      obtain ⟨other, member', has'⟩ := List.exists_of_findSome?_eq_some found'
      rw [agree one member other (perm.mem_iff.mpr member') x y has has']

/-- Modules with the same core, names, values and merges are the same. -/
theorem Module.eq_of_core {module other : Module σ} (core : module.core = other.core)
    (declares : ∀ name, module.declares name = other.declares name)
    (merges : module.merges = other.merges) (peek : ∀ name, module.peek name = other.peek name) :
    module = other := by
  have bindings : module.bindings = other.bindings := Table.eq_of_find? peek
  have declared : module.declared = other.declared := by
    refine Table.eq_of_find? fun name => ?_
    have same : (module.declared.find? name).isSome = (other.declared.find? name).isSome := declares name
    cases here : module.declared.find? name <;> cases there : other.declared.find? name <;>
      simp_all
  obtain ⟨config, _, wildcards, _, _, slot, held, steps, hooks, tickets⟩ := module
  obtain ⟨config', _, wildcards', _, _, slot', held', steps', hooks', tickets'⟩ := other
  simp only [Module.core, Module.mk.injEq] at core ⊢
  simp_all

namespace World

variable {world : World σ} {m source other : ModuleId} {name : String}

/-- The value that a merge takes for a name from a module as it is. -/
def offer? (world : World σ) (source : ModuleId) (name : String) : Option Value :=
  if name = defaultExport then none else (world.module source).peek name

theorem module_merge_self (made : m ∈ world) (source : ModuleId) : (world.merge m source).module m =
    ((world.module m).defineAll (world.offered source)).countMerge := by
  simp only [merge, module_record, module_update_self _ made]

theorem module_merge_of_ne (differs : other ≠ m) (source : ModuleId) :
    (world.merge m source).module other = world.module other := by
  simp only [merge, module_record, module_update_of_ne _ differs]

theorem peek_merge (made : m ∈ world) (source : ModuleId) (name : String) :
    ((world.merge m source).module m).peek name =
      (world.offer? source name).or ((world.module m).peek name) := by
  rw [module_merge_self made]
  refine (Module.peek_defineAll _ name _).trans ?_
  rw [findIn_offered, offer?]

theorem declares_merge (made : m ∈ world) (source : ModuleId) (name : String) :
    ((world.merge m source).module m).declares name =
      ((world.offer? source name).isSome || (world.module m).declares name) := by
  rw [module_merge_self made]
  refine (Module.declares_defineAll _ name _).trans ?_
  rw [findIn_offered, offer?]

theorem merges_merge (made : m ∈ world) (source : ModuleId) :
    ((world.merge m source).module m).merges = (world.module m).merges + 1 := by
  rw [module_merge_self made]
  exact congrArg (· + 1) (Module.merges_defineAll _ _)

/-- Merges the modules of a list into a module, one after another. -/
def mergeAll (world : World σ) (m : ModuleId) (sources : List ModuleId) : World σ :=
  sources.foldl (·.merge m ·) world

theorem mergeAll_concat (world : World σ) (m : ModuleId) (sources : List ModuleId)
    (source : ModuleId) :
    world.mergeAll m (sources ++ [source]) = (world.mergeAll m sources).merge m source :=
  List.foldl_concat ..

theorem setting_mergeAll (world : World σ) (m : ModuleId) (sources : List ModuleId) :
    (world.mergeAll m sources).setting = world.setting := by
  induction sources using List.reverseRecOn with
  | nil => rfl
  | append_singleton sources source ih => rw [mergeAll_concat, setting_merge, ih]

theorem mem_mergeAll (made : m ∈ world) (sources : List ModuleId) : m ∈ world.mergeAll m sources := by
  rwa [mem_iff, length_of_setting (setting_mergeAll world m sources)]

theorem module_mergeAll_of_ne (differs : other ≠ m) (sources : List ModuleId) :
    (world.mergeAll m sources).module other = world.module other := by
  induction sources using List.reverseRecOn with
  | nil => rfl
  | append_singleton sources source ih => rw [mergeAll_concat, module_merge_of_ne differs, ih]

theorem core_mergeAll (made : m ∈ world) (sources : List ModuleId) :
    ((world.mergeAll m sources).module m).core = (world.module m).core := by
  induction sources using List.reverseRecOn with
  | nil => rfl
  | append_singleton sources source ih =>
    rw [mergeAll_concat, module_merge_self (mem_mergeAll made sources), Module.core_countMerge,
      Module.core_defineAll, ih]

theorem merges_mergeAll (made : m ∈ world) (sources : List ModuleId) :
    ((world.mergeAll m sources).module m).merges = (world.module m).merges + sources.length := by
  induction sources using List.reverseRecOn with
  | nil => rfl
  | append_singleton sources source ih =>
    rw [mergeAll_concat, merges_merge (mem_mergeAll made sources), ih, List.length_append,
      List.length_singleton, Nat.add_assoc]

theorem peek_mergeAll_default (made : m ∈ world) (sources : List ModuleId) :
    ((world.mergeAll m sources).module m).peek defaultExport =
      (world.module m).peek defaultExport := by
  induction sources using List.reverseRecOn with
  | nil => rfl
  | append_singleton sources source ih =>
    rw [mergeAll_concat, peek_merge (mem_mergeAll made sources), offer?, if_pos rfl, Option.none_or,
      ih]

/-- The last of the other modules that has a value for a name gives it. -/
theorem peek_mergeAll (made : m ∈ world) (sources : List ModuleId) (ordinary : name ≠ defaultExport) :
    ((world.mergeAll m sources).module m).peek name =
      (sources.reverse.findSome? fun source =>
        if source = m then none else (world.module source).peek name).or
        ((world.module m).peek name) := by
  induction sources using List.reverseRecOn with
  | nil => rfl
  | append_singleton sources source ih =>
    rw [mergeAll_concat, peek_merge (mem_mergeAll made sources), offer?, if_neg ordinary, ih,
      List.reverse_concat, List.findSome?_cons]
    by_cases here : source = m
    · rw [if_pos here, here, ih, Option.or_self]
    · rw [if_neg here, module_mergeAll_of_ne here]
      cases (world.module source).peek name <;> rfl

/-- After merges into a module, a module has a value for a name if it had one, or, for the module
itself, if one of the merged ones had. -/
theorem isSome_peek_mergeAll (made : m ∈ world) (sources : List ModuleId)
    (ordinary : name ≠ defaultExport) (source : ModuleId) :
    (((world.mergeAll m sources).module source).peek name).isSome = true ↔
      ((world.module source).peek name).isSome = true ∨
        source = m ∧ ∃ source ∈ sources, ((world.module source).peek name).isSome = true := by
  by_cases here : source = m
  · subst here
    rw [peek_mergeAll made sources ordinary, Option.isSome_or, Bool.or_eq_true,
      List.findSome?_isSome_iff]
    simp only [List.mem_reverse, true_and]
    constructor
    · rintro (⟨other, member, has⟩ | has)
      · split at has
        · cases has
        · exact .inr ⟨other, member, has⟩
      · exact .inl has
    · rintro (has | ⟨other, member, has⟩)
      · exact .inr has
      · by_cases same : other = source
        · exact .inr (same ▸ has)
        · exact .inl ⟨other, member, by rwa [if_neg same]⟩
  · simp [module_mergeAll_of_ne here, here]

theorem declares_mergeAll (made : m ∈ world) (sources : List ModuleId) (name : String) :
    ((world.mergeAll m sources).module m).declares name = true ↔
      (world.module m).declares name = true ∨
        name ≠ defaultExport ∧ ∃ source ∈ sources, ((world.module source).peek name).isSome = true := by
  by_cases ordinary : name = defaultExport
  · induction sources using List.reverseRecOn with
    | nil => simp [mergeAll]
    | append_singleton sources source ih =>
      rw [mergeAll_concat, declares_merge (mem_mergeAll made sources), offer?, if_pos ordinary]
      simpa [ordinary] using ih
  · simp only [ne_eq, ordinary, not_false_eq_true, true_and]
    induction sources using List.reverseRecOn with
    | nil => simp [mergeAll]
    | append_singleton sources source ih =>
      rw [mergeAll_concat, declares_merge (mem_mergeAll made sources), offer?, if_neg ordinary,
        Bool.or_eq_true, isSome_peek_mergeAll made sources ordinary, ih]
      simp only [List.mem_append, List.mem_singleton, or_and_right, exists_or, exists_eq_left]
      constructor
      · rintro ((has | ⟨_, had⟩) | declared | had)
        exacts [.inr (.inr has), .inr (.inl had), .inl declared, .inr (.inl had)]
      · rintro (declared | had | has)
        exacts [.inr (.inl declared), .inr (.inr had), .inl (.inl has)]

/-- A merge of what a module has already only counts. -/
theorem merge_of_taken (made : m ∈ world)
    (taken : ∀ name, (world.offer? source name).isSome = true →
      (world.module m).declares name = true ∧
        (world.module m).peek name = world.offer? source name) :
    (world.merge m source).module m = (world.module m).countMerge := by
  refine Module.eq_of_core ?_ (fun name => ?_) (merges_merge made source) fun name => ?_
  · rw [module_merge_self made, Module.core_countMerge, Module.core_defineAll, Module.core_countMerge]
  · rw [declares_merge made]
    have counted : (world.module m).countMerge.declares name = (world.module m).declares name := rfl
    cases offers : (world.offer? source name).isSome with
    | false => rw [Bool.false_or, counted]
    | true => rw [Bool.true_or, counted, (taken name offers).1]
  · rw [peek_merge made]
    have counted : (world.module m).countMerge.peek name = (world.module m).peek name := rfl
    cases offers : world.offer? source name with
    | none => rw [Option.none_or, counted]
    | some value =>
      have kept := (taken name (by rw [offers]; rfl)).2
      rw [counted, kept, offers]
      rfl

/-- After a merge, a module has all that the other one offers. -/
theorem taken_merge (made : m ∈ world) (source : ModuleId) (name : String)
    (offers : ((world.merge m source).offer? source name).isSome = true) :
    ((world.merge m source).module m).declares name = true ∧
      ((world.merge m source).module m).peek name = (world.merge m source).offer? source name := by
  have ordinary : name ≠ defaultExport := by
    rintro rfl
    rw [offer?, if_pos rfl] at offers
    cases offers
  have same : (world.merge m source).offer? source name = world.offer? source name := by
    rw [offer?, offer?, if_neg ordinary, if_neg ordinary]
    by_cases here : source = m
    · subst here
      rw [peek_merge made, offer?, if_neg ordinary, Option.or_self]
    · rw [module_merge_of_ne here]
  rw [same] at offers ⊢
  obtain ⟨value, offered⟩ := Option.isSome_iff_exists.mp offers
  rw [declares_merge made, peek_merge made, offered]
  exact ⟨rfl, rfl⟩

/-- The order of the merges does not matter where the modules agree. -/
theorem module_mergeAll_of_perm (made : m ∈ world) {sources others : List ModuleId}
    (perm : sources.Perm others)
    (agree : ∀ one ∈ sources, ∀ other ∈ sources, one ≠ m → other ≠ m → ∀ name ≠ defaultExport,
      ∀ x y, (world.module one).peek name = some x → (world.module other).peek name = some y → x = y) :
    (world.mergeAll m others).module m = (world.mergeAll m sources).module m := by
  refine Module.eq_of_core ?_ (fun name => ?_) ?_ fun name => ?_
  · rw [core_mergeAll made, core_mergeAll made]
  · rw [Bool.eq_iff_iff, declares_mergeAll made, declares_mergeAll made]
    simp only [perm.mem_iff]
  · rw [merges_mergeAll made, merges_mergeAll made, perm.length_eq]
  · by_cases ordinary : name = defaultExport
    · rw [ordinary, peek_mergeAll_default made, peek_mergeAll_default made]
    · rw [peek_mergeAll made others ordinary, peek_mergeAll made sources ordinary]
      congr 1
      have reversed := (others.reverse_perm.trans perm.symm).trans sources.reverse_perm.symm
      refine findSome?_of_perm reversed ?_
      intro one member other member' x y has has'
      split at has
      · cases has
      split at has'
      · cases has'
      next apart apart' =>
      rw [List.mem_reverse] at member member'
      exact agree one (perm.mem_iff.mpr member) other (perm.mem_iff.mpr member') apart apart' name
        ordinary x y has has'

/-- What a world has after the modules of a list were merged into one of its modules. -/
structure Merges (world : World σ) (m : ModuleId) (sources : List ModuleId) : Prop where
  /-- Each merge overrides the values by those that the other module has then. -/
  overrides : ∀ early source late, sources = early ++ source :: late → ∀ name,
    ((world.mergeAll m (early ++ [source])).module m).peek name =
      ((world.mergeAll m early).offer? source name).or
        (((world.mergeAll m early).module m).peek name)
  /-- So the last of the other modules that has a value for a name has given it. -/
  last : ∀ name ≠ defaultExport, ((world.mergeAll m sources).module m).peek name =
    (sources.reverse.findSome? fun source =>
      if source = m then none else (world.module source).peek name).or ((world.module m).peek name)
  default : ((world.mergeAll m sources).module m).peek defaultExport =
    (world.module m).peek defaultExport
  declares : ∀ name, ((world.mergeAll m sources).module m).declares name = true ↔
    (world.module m).declares name = true ∨
      name ≠ defaultExport ∧ ∃ source ∈ sources, ((world.module source).peek name).isSome = true
  merges : ((world.mergeAll m sources).module m).merges = (world.module m).merges + sources.length
  /-- Apart from names, values and merges, the module is as it was. -/
  core : ((world.mergeAll m sources).module m).core = (world.module m).core
  others : ∀ other ≠ m, (world.mergeAll m sources).module other = world.module other
  setting : (world.mergeAll m sources).setting = world.setting
  /-- While neither the names of the module nor the values of the last one that was merged have changed,
  merging it again only counts. -/
  again : ∀ early source, sources = early ++ [source] → ∀ later : World σ, m ∈ later →
    (later.module m).declared = ((world.mergeAll m sources).module m).declared →
    (later.module m).bindings = ((world.mergeAll m sources).module m).bindings →
    (later.module source).bindings = ((world.mergeAll m sources).module source).bindings →
    (later.merge m source).module m = (later.module m).countMerge ∧
      ∀ other ≠ m, (later.merge m source).module other = later.module other
  /-- If the other modules agree on the names that they share, the order does not matter. -/
  reordered : ∀ others, sources.Perm others →
    (∀ one ∈ sources, ∀ other ∈ sources, one ≠ m → other ≠ m → ∀ name ≠ defaultExport, ∀ x y,
      (world.module one).peek name = some x → (world.module other).peek name = some y → x = y) →
    (world.mergeAll m others).module m = (world.mergeAll m sources).module m

theorem merge_of_unchanged {later : World σ} (made : m ∈ world) (here : m ∈ later)
    (declared : (later.module m).declared = ((world.merge m source).module m).declared)
    (bindings : (later.module m).bindings = ((world.merge m source).module m).bindings)
    (offered : (later.module source).bindings = ((world.merge m source).module source).bindings) :
    (later.merge m source).module m = (later.module m).countMerge := by
  refine merge_of_taken here fun name offers => ?_
  have same : later.offer? source name = (world.merge m source).offer? source name := by
    simp only [offer?, Module.peek, offered]
  rw [same] at offers ⊢
  simpa only [Module.declares, Module.peek, declared, bindings] using taken_merge made source name offers

theorem merges_of_mem (made : m ∈ world) (sources : List ModuleId) : world.Merges m sources where
  overrides early source late _ name := by
    rw [mergeAll_concat, peek_merge (mem_mergeAll made early)]
  last name ordinary := peek_mergeAll made sources ordinary
  default := peek_mergeAll_default made sources
  declares := declares_mergeAll made sources
  merges := merges_mergeAll made sources
  core := core_mergeAll made sources
  others other differs := module_mergeAll_of_ne differs sources
  setting := setting_mergeAll world m sources
  again early source parts later here declared bindings offered := by
    subst parts
    rw [mergeAll_concat] at declared bindings offered
    exact ⟨merge_of_unchanged (mem_mergeAll made early) here declared bindings offered,
      fun other differs => module_merge_of_ne differs source⟩
  reordered others perm agree := module_mergeAll_of_perm made perm agree

end World

/-- The program that merges the modules of a list into a module, one after another, and then goes on. -/
def Program.merging (m : ModuleId) (sources : List ModuleId) (next : Program σ) : Program σ :=
  sources.foldr (fun source rest => .act (.merge m source) fun _ => rest) next

namespace Machine

theorem after_merging (m : ModuleId) (sources : List ModuleId) (next : Program σ)
    (stack : List (Frame σ)) (world : World σ) :
    (⟨.run (.merging m sources next), stack, world⟩ : Machine σ).after sources.length =
      ⟨.run next, stack, world.mergeAll m sources⟩ := by
  induction sources generalizing world with
  | nil => rfl
  | cons source rest ih =>
    rw [List.length_cons, after, ← after_step]
    exact ih (world.merge m source)

theorem turn_merging (m : ModuleId) (sources : List ModuleId) (next : Program σ)
    (stack : List (Frame σ)) (world : World σ) {i : Nat} (early : i < sources.length) :
    ((⟨.run (.merging m sources next), stack, world⟩ : Machine σ).after i).turn = .quiet := by
  induction sources generalizing world i with
  | nil => cases early
  | cons source rest ih =>
    cases i with
    | zero => rfl
    | succ i =>
      rw [after, ← after_step]
      exact ih (world.merge m source) (Nat.lt_of_succ_lt_succ early)

end Machine

/-- Wherever a program merges the modules of a list into a module, one after another, no body goes on
meanwhile, and each merge overrides the values that there are, but never that of the default slot. -/
theorem merges_override {world : World σ} {m : ModuleId} (made : m ∈ world) (sources : List ModuleId)
    (next : Program σ) (stack : List (Frame σ)) :
    let machine : Machine σ := ⟨.run (.merging m sources next), stack, world⟩
    machine.after sources.length = ⟨.run next, stack, world.mergeAll m sources⟩ ∧
      (∀ i < sources.length, (machine.after i).turn = .quiet) ∧ world.Merges m sources :=
  ⟨after_merging m sources next stack world,
    fun _ early => turn_merging m sources next stack world early, World.merges_of_mem made sources⟩

/-- Two modules with a name in common, and a third one with a value under a name of the first. All have
values in their default slots. -/
def contributing : Program Unit :=
  Code.program do
    let a ← Code.create [.named "x", .named "z"] .standard
    let b ← Code.create [.named "x", .named "y"] .standard
    let m ← Code.create [.wildcard, .named "z"] .standard
    let _ ← Code.commit a [("default", .boolean true), ("x", .null)]
    let _ ← Code.commit b [("default", .boolean false), ("x", .boolean true), ("y", .null)]
    Code.commit m [("default", .null), ("z", .boolean false)]

def contributed : World Unit := ((Machine.start contributing (.empty .standard ())).after 9).world

theorem merges_override_of_contributed :
    let sources := [0, 2, 1, 0]
    let m := (contributed.mergeAll 2 sources).module 2
    2 ∈ contributed ∧ contributed.Merges 2 sources ∧
      m.bindings.entries =
        [("default", .null), ("x", .null), ("y", .null), ("z", .boolean false)] ∧
      m.declared.keys = ["default", "x", "y", "z"] ∧ m.merges = 4 := by
  intro sources m
  have made : 2 ∈ contributed := by
    show 2 < contributed.modules.length
    decide
  have merges := (merges_override made sources (.done .unit) []).2.2
  exact ⟨made, merges, rfl, rfl, rfl⟩

end LiveBindings
