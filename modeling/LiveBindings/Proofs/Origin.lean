import LiveBindings.Proofs.Setting
import LiveBindings.Proofs.Writing

namespace LiveBindings

variable {σ : Type}

namespace Machine

/-- The value that the next transition writes to a name of a module: that of an export of the name, of
its last entry in a commit that passes its check, of the name that a re-export takes under it, or what
it has in a module that is merged. -/
def written? (machine : Machine σ) (m : ModuleId) (name : String) : Option Value :=
  match machine.control with
  | .run (.act (.settle n other value) _) =>
    if n = m ∧ (machine.world.module m).declares other = true ∧ name = other then some value
    else none
  | .run (.act (.merge n source) _) =>
    if n = m ∧ n ∈ machine.world ∧ name ≠ defaultExport then (machine.world.module source).peek name
    else none
  | .run (.commit n entries _) =>
    if n = m ∧ (machine.world.module m).firstUndeclared? entries = none then
      Table.findIn name entries.reverse
    else none
  | .demand (.forward n source ((localName, remoteName) :: _)) =>
    if n = m ∧ n ∈ machine.world ∧ name = localName then
      (machine.world.module source).peek remoteName
    else none
  | _ => none

/-- Whether the next transition takes a name into a module from another one: by a merge from a module
that has a value for it, or by a re-export under the name, with or without a value. -/
def brings (machine : Machine σ) (m : ModuleId) (name : String) : Bool :=
  match machine.control with
  | .run (.act (.merge n source) _) =>
    n = m ∧ n ∈ machine.world ∧ name ≠ defaultExport ∧
      ((machine.world.module source).peek name).isSome = true
  | .demand (.forward n source ((localName, remoteName) :: _)) =>
    n = m ∧ n ∈ machine.world ∧ name = localName ∧
      machine.world.halts source remoteName = true
  | _ => false

/-- Whether the next transition is a merge into a module. -/
def mergesInto (machine : Machine σ) (m : ModuleId) : Bool :=
  match machine.control with
  | .run (.act (.merge n _) _) => n = m ∧ n ∈ machine.world
  | _ => false

/-- The names that the module is made with which the next transition makes, if it makes this one. -/
def makes? (machine : Machine σ) (m : ModuleId) : Option (List ExportName) :=
  match machine.control with
  | .run (.act (.create names _) _) => if m = machine.world.modules.length then some names else none
  | .run (.act (.prepare id names) _) =>
    if machine.world.registry.find? id = none ∧ m = machine.world.modules.length then some names
    else none
  | _ => none

end Machine

namespace Table

variable {α : Type} {key : String} {list : List (String × α)}

theorem findIn_eq_none (missing : key ∉ list.map Prod.fst) : findIn key list = none := by
  induction list with
  | nil => rfl
  | cons entry rest ih =>
    rw [List.map_cons, List.mem_cons, not_or] at missing
    simp only [findIn, missing.1, if_false, ih missing.2]

theorem findIn_reverse (distinct : (list.map Prod.fst).Nodup) :
    findIn key list.reverse = findIn key list := by
  induction list with
  | nil => rfl
  | cons entry rest ih =>
    obtain ⟨apart, distinct⟩ := List.nodup_cons.mp distinct
    rw [List.reverse_cons, findIn_append, ih distinct]
    by_cases same : key = entry.1
    · rw [same, findIn_eq_none apart]
      simp [findIn]
    · simp [findIn, same]

theorem findIn_filter_ne (other : String) (list : List (String × α)) :
    findIn key (list.filter (·.1 ≠ other)) = if key = other then none else findIn key list := by
  induction list with
  | nil => simp [findIn]
  | cons entry rest ih =>
    by_cases kept : entry.1 = other
    · rw [List.filter_cons_of_neg (by simpa using kept), ih]
      by_cases same : key = other
      · simp [same]
      · simp [findIn, same, kept]
    · rw [List.filter_cons_of_pos (by simpa using kept)]
      simp only [findIn, ih]
      by_cases same : key = entry.1
      · simp [same, kept]
      · simp [same]

end Table

/-- What a merge takes for a name: its value in the other module, unless it is the default slot. -/
theorem World.findIn_offered (world : World σ) (source : ModuleId) (name : String) :
    Table.findIn name (world.offered source).reverse =
      if name = defaultExport then none else (world.module source).peek name := by
  have distinct : ((world.offered source).map Prod.fst).Nodup :=
    (world.module source).bindings.keys_nodup.sublist (List.filter_sublist.map Prod.fst)
  rw [Table.findIn_reverse distinct]
  exact Table.findIn_filter_ne defaultExport _

namespace Module

theorem peek_bindAll (module : Module σ) (name : String) (entries : List (String × Value)) :
    (module.bindAll entries).peek name =
      (Table.findIn name entries.reverse).or (module.peek name) := by
  unfold bindAll
  induction entries generalizing module with
  | nil => rfl
  | cons entry rest ih =>
    rw [List.foldl_cons, ih, peek_bind, List.reverse_cons, Table.findIn_append, Option.or_assoc]
    simp only [Table.findIn]
    split <;> rfl

theorem bindAll_eq (module : Module σ) (entries : List (String × Value)) :
    module.bindAll entries = { module with bindings := (module.bindAll entries).bindings } := by
  unfold bindAll
  induction entries generalizing module with
  | nil => rfl
  | cons entry rest ih =>
    rw [List.foldl_cons, ih]
    rfl

theorem merges_define (module : Module σ) (name : String) (value : Option Value) :
    (module.define name value).merges = module.merges := by
  cases value <;> rfl

theorem merges_defineAll (module : Module σ) (entries : List (String × Value)) :
    (module.defineAll entries).merges = module.merges := by
  unfold defineAll
  induction entries generalizing module with
  | nil => rfl
  | cons entry rest ih => rw [List.foldl_cons, ih, merges_define]

end Module

namespace Machine

variable {machine : Machine σ} {m : ModuleId}

theorem peek_step (made : m ∈ machine.world) (name : String) :
    (machine.step.world.module m).peek name =
      (machine.written? m name).or ((machine.world.module m).peek name) := by
  have same := congrArg (Module.peek · name) (surface_step made)
  refine Eq.trans same ?_
  change (machine.rewritten m).peek name = _
  unfold rewritten
  split
  · next n other value next control =>
    simp only [written?, control]
    by_cases passes : n = m ∧ (machine.world.module m).declares other = true
    · rw [if_pos passes, Module.peek_bind]
      by_cases here : name = other
      · simp [here, passes]
      · simp [here]
    · rw [if_neg passes, if_neg fun all => passes ⟨all.1, all.2.1⟩, Option.none_or]
  · next n source next control =>
    simp only [written?, control]
    by_cases here : n = m
    · have counted (module : Module σ) : module.countMerge.peek name = module.peek name := rfl
      rw [if_pos here, counted, Module.peek_defineAll, World.findIn_offered]
      by_cases given : name = defaultExport <;> simp [here, made, given]
    · rw [if_neg here, if_neg fun all => here all.1, Option.none_or]
  · next n entries next control =>
    simp only [written?, control]
    split
    · exact Module.peek_bindAll ..
    · rfl
  · next n source localName remoteName rest control =>
    simp only [written?, control]
    by_cases here : n = m
    · by_cases halts : machine.world.halts source remoteName = true
      · simp only [here, made, halts, and_self, if_true, true_and, Module.peek_define]
      · have missing : (machine.world.module source).peek remoteName = none :=
          Option.eq_none_iff_forall_ne_some.mpr fun value settled =>
            halts (World.halts_of_peek settled)
        simp [halts, missing]
    · simp [here]
  · next settles merges commits takes =>
    unfold written?
    split
    · next control => exact absurd control (settles _ _ _ _)
    · next control => exact absurd control (merges _ _ _)
    · next control => exact absurd control (commits _ _ _)
    · next control => exact absurd control (takes _ _ _ _ _)
    · rfl

theorem declares_step (made : m ∈ machine.world) (name : String) :
    (machine.step.world.module m).declares name =
      (machine.brings m name || (machine.world.module m).declares name) := by
  have same := congrArg (Module.declares · name) (surface_step made)
  refine Eq.trans same ?_
  change (machine.rewritten m).declares name = _
  unfold rewritten
  split
  · next control =>
    simp only [brings, control]
    split <;> rfl
  · next n source next control =>
    simp only [brings, control]
    by_cases here : n = m
    · have counted (module : Module σ) : module.countMerge.declares name = module.declares name := rfl
      rw [if_pos here, counted, Module.declares_defineAll, World.findIn_offered]
      by_cases given : name = defaultExport <;> simp [here, made, given]
    · simp [here]
  · next control =>
    simp only [brings, control]
    split
    · rw [Module.bindAll_eq]
      rfl
    · rfl
  · next n source localName remoteName rest control =>
    simp only [brings, control]
    by_cases here : n = m
    · by_cases halts : machine.world.halts source remoteName = true
      · simp [here, made, halts, Module.declares_define]
      · simp [here, halts]
    · simp [here]
  · next merges _ takes =>
    unfold brings
    split
    · next control => exact absurd control (merges _ _ _)
    · next control => exact absurd control (takes _ _ _ _ _)
    · rfl

theorem merges_step (made : m ∈ machine.world) :
    (machine.step.world.module m).merges =
      (machine.world.module m).merges + if machine.mergesInto m = true then 1 else 0 := by
  have same := congrArg Module.merges (surface_step made)
  refine Eq.trans same ?_
  change (machine.rewritten m).merges = _
  unfold rewritten
  split
  · next control =>
    simp only [mergesInto, control]
    split <;> rfl
  · next n source next control =>
    simp only [mergesInto, control]
    by_cases here : n = m
    · have counted (module : Module σ) : module.countMerge.merges = module.merges + 1 := rfl
      rw [if_pos here, counted, Module.merges_defineAll]
      simp [here, made]
    · simp [here]
  · next control =>
    simp only [mergesInto, control]
    split
    · rw [Module.bindAll_eq]
      rfl
    · rfl
  · next control =>
    simp only [mergesInto, control]
    split
    · rw [Module.merges_define]
      rfl
    · rfl
  · next merges _ _ =>
    unfold mergesInto
    split
    · next control => exact absurd control (merges _ _ _)
    · rfl

/-- A module that a transition makes is as the list of its exports tells. -/
theorem exists_makes (missing : m ∉ machine.world) (made : m ∈ machine.step.world) :
    ∃ names config, machine.makes? m = some names ∧
      machine.step.world.module m = .fresh names config := by
  by_cases sets : ∃ program, machine.control = .run program ∧ program.Sets
  · obtain ⟨program, control, sets⟩ := sets
    obtain ⟨_, stack, world⟩ := machine
    cases control
    cases program with
    | act action next =>
      cases action with
      | create names config =>
        obtain rfl := World.eq_length_of_create missing made
        exact ⟨names, config, if_pos rfl, world.module_create_self names config⟩
      | prepare id names =>
        change m ∈ (world.prepare id names).2 at made
        have performs : (step ⟨.run (.act (.prepare id names) next), stack, world⟩).world =
            (world.prepare id names).2 := rfl
        rw [performs]
        unfold World.prepare at made ⊢
        cases found : world.registry.find? id with
        | some n =>
          simp only [found] at made
          exact absurd made missing
        | none =>
          simp only [found] at made ⊢
          have last : m = world.modules.length := World.eq_length_of_create missing made
          subst last
          exact ⟨names, _, if_pos ⟨found, rfl⟩, (world.log _).module_create_self names _⟩
      | _ => cases sets
    | resume id n next =>
      simp only [step, stepProgram, resume] at made
      split at made <;> exact absurd made missing
    | host | function | detach => exact absurd made missing
    | _ => cases sets
  -- All other operations keep the number of modules.
  · have keeps : ∀ program, machine.control = .run program → ¬ program.Sets :=
      fun program control changes => sets ⟨program, control, changes⟩
    rw [World.mem_iff, World.length_of_setting (setting_step keeps)] at made
    exact absurd made missing

end Machine

end LiveBindings
