import LiveBindings.Machine

namespace LiveBindings

variable {σ : Type}

namespace Module

/-- The module without names, values and merges. -/
def core (module : Module σ) : Module σ :=
  { module with declared := Table.empty, merges := 0, bindings := Table.empty }

@[simp]
theorem core_bind (module : Module σ) (name : String) (value : Value) :
    (module.bind name value).core = module.core := rfl

@[simp]
theorem core_countMerge (module : Module σ) : module.countMerge.core = module.core := rfl

@[simp]
theorem core_define (module : Module σ) (name : String) (value : Option Value) :
    (module.define name value).core = module.core := by
  cases value <;> rfl

@[simp]
theorem core_defineAll (module : Module σ) (entries : List (String × Value)) :
    (module.defineAll entries).core = module.core := by
  unfold defineAll
  induction entries generalizing module with
  | nil => rfl
  | cons entry rest ih => rw [List.foldl_cons, ih, core_define]

end Module

theorem getElem?_append_singleton {α : Type} (list : List α) (last : α) (i : Nat) :
    (list ++ [last])[i]? = if i = list.length then some last else list[i]? := by
  split
  · next same =>
    subst same
    exact List.getElem?_concat_length
  · next differs =>
    rcases Nat.lt_or_gt_of_ne differs with less | greater
    · exact List.getElem?_append_left less
    · rw [List.getElem?_eq_none (Nat.le_of_lt greater),
        List.getElem?_eq_none (by rwa [List.length_append])]

namespace World

theorem mem_iff {world : World σ} {m : ModuleId} : m ∈ world ↔ m < world.modules.length := Iff.rfl

theorem module_of_not_mem {world : World σ} {m : ModuleId} (missing : m ∉ world) :
    world.module m = .absent := by
  have beyond : world.modules.length ≤ m := Nat.not_lt.mp missing
  simp [module, List.getD, beyond]

@[simp]
theorem modules_record (world : World σ) (about : ModuleId) (event : Event) :
    (world.record about event).modules = world.modules := by
  unfold record
  split <;> rfl

@[simp]
theorem length_update (world : World σ) (m : ModuleId) (change : Module σ → Module σ) :
    (world.update m change).modules.length = world.modules.length := by
  simp [update]

/-- What a change of a module keeps of it is kept of every module. -/
theorem congr_update {α : Type} (part : Module σ → α) (world : World σ) (m n : ModuleId)
    (change : Module σ → Module σ) (keeps : ∀ module, part (change module) = part module) :
    part ((world.update m change).module n) = part (world.module n) := by
  by_cases same : n = m
  · subst same
    by_cases made : n ∈ world
    · rw [module_update_self change made, keeps]
    · have still : n ∉ world.update n change := by rwa [mem_iff, length_update]
      rw [module_of_not_mem made, module_of_not_mem still]
  · rw [module_update_of_ne world same]

theorem module_eq_of_modules_eq {before after : World σ} (same : after.modules = before.modules)
    (m : ModuleId) : after.module m = before.module m := by
  unfold module
  rw [same]

theorem module_create (world : World σ) (names : List ExportName) (config : Config) (m : ModuleId) :
    (world.create names config).2.module m =
      if m = world.modules.length then .fresh names config else world.module m := by
  simp only [create, module, List.getD_eq_getElem?_getD, getElem?_append_singleton]
  split <;> rfl

theorem module_create_of_mem {world : World σ} {m : ModuleId} (made : m ∈ world)
    (names : List ExportName) (config : Config) :
    (world.create names config).2.module m = world.module m := by
  rw [module_create, if_neg (Nat.ne_of_lt made)]

theorem module_create_self (world : World σ) (names : List ExportName) (config : Config) :
    (world.create names config).2.module world.modules.length = .fresh names config := by
  rw [module_create, if_pos rfl]

theorem eq_length_of_create {world : World σ} {m : ModuleId} {names : List ExportName}
    {config : Config} (missing : m ∉ world) (made : m ∈ (world.create names config).2) :
    m = world.modules.length := by
  simp only [mem_iff, create, List.length_append, List.length_singleton] at missing made
  exact Nat.le_antisymm (Nat.lt_succ_iff.mp made) (Nat.not_lt.mp missing)

/-- Names were written and modules were made, and nothing else happened to modules. -/
structure Writes (before after : World σ) : Prop where
  made : before.modules.length ≤ after.modules.length
  core : ∀ m ∈ before, (after.module m).core = (before.module m).core
  fresh : ∀ m ∈ after, m ∉ before →
    ∃ names config, (after.module m).core = (Module.fresh names config).core

theorem Writes.of_modules_eq {before after : World σ} (same : after.modules = before.modules) :
    before.Writes after where
  made := Nat.le_of_eq (congrArg List.length same.symm)
  core m _ := by rw [module_eq_of_modules_eq same]
  fresh m member missing := by
    rw [mem_iff, same] at member
    exact absurd member missing

theorem Writes.refl (world : World σ) : world.Writes world := .of_modules_eq rfl

theorem Writes.trans {first middle last : World σ} (early : first.Writes middle)
    (late : middle.Writes last) : first.Writes last where
  made := Nat.le_trans early.made late.made
  core m member := (late.core m (Nat.lt_of_lt_of_le member early.made)).trans (early.core m member)
  fresh m member missing := by
    by_cases between : m ∈ middle
    · obtain ⟨names, config, same⟩ := early.fresh m between missing
      exact ⟨names, config, (late.core m between).trans same⟩
    · exact late.fresh m member between

theorem writes_record (world : World σ) (m : ModuleId) (event : Event) :
    world.Writes (world.record m event) := .of_modules_eq (modules_record world m event)

theorem writes_update (world : World σ) (m : ModuleId) {change : Module σ → Module σ}
    (keeps : ∀ module, (change module).core = module.core) : world.Writes (world.update m change) where
  made := Nat.le_of_eq (length_update world m change).symm
  core other member := by
    by_cases same : other = m
    · subst other
      rw [module_update_self change member, keeps]
    · rw [module_update_of_ne world same]
  fresh other member missing := by
    rw [mem_iff, length_update] at member
    exact absurd member missing

theorem writes_create (world : World σ) (names : List ExportName) (config : Config) :
    world.Writes (world.create names config).2 where
  made := by simp [create]
  core m member := by rw [module_create_of_mem member]
  fresh m member missing :=
    ⟨names, config, by rw [eq_length_of_create missing member, module_create_self]⟩

theorem writes_prepare (world : World σ) (id : String) (names : List ExportName) :
    world.Writes (world.prepare id names).2 := by
  unfold prepare
  split
  · exact .refl world
  · exact (Writes.of_modules_eq rfl).trans ((writes_create _ names _).trans (.of_modules_eq rfl))

theorem writes_settle (world : World σ) (m : ModuleId) (name : String) (value : Value) :
    world.Writes (world.settle m name value).2 := by
  unfold settle
  split
  · exact (writes_record world m _).trans (writes_update _ m fun _ => Module.core_bind ..)
  · exact .refl world

theorem writes_settleAll (world : World σ) (m : ModuleId) (entries : List (String × Value)) :
    world.Writes (world.settleAll m entries) := by
  unfold settleAll
  induction entries generalizing world with
  | nil => exact .refl world
  | cons entry rest ih =>
    rw [List.foldl_cons]
    have logged := writes_record world m (.settled m entry.1 entry.2)
    have bound := writes_update (world.record m (.settled m entry.1 entry.2)) m fun module =>
      Module.core_bind module entry.1 entry.2
    exact (logged.trans bound).trans (ih _)

theorem state_settleAll (world : World σ) (m : ModuleId) (entries : List (String × Value)) :
    ((world.settleAll m entries).module m).state = (world.module m).state := by
  unfold settleAll
  induction entries generalizing world with
  | nil => rfl
  | cons entry rest ih =>
    have kept := congr_update Module.state (world.record m (.settled m entry.1 entry.2)) m m
      (·.bind entry.1 entry.2) fun _ => rfl
    rw [List.foldl_cons, ih, kept, module_record]

/-- No check fails when all names may be written. -/
theorem settleEach_of_declared {world : World σ} {m : ModuleId} {entries : List (String × Value)}
    (declared : ∀ entry ∈ entries, (world.module m).declares entry.1 = true) :
    world.settleEach m entries = (.ok (), world.settleAll m entries) := by
  induction entries generalizing world with
  | nil => rfl
  | cons entry rest ih =>
    obtain ⟨passes, others⟩ := List.forall_mem_cons.mp declared
    have settles : world.settle m entry.1 entry.2 = (.ok (),
        (world.record m (.settled m entry.1 entry.2)).update m (·.bind entry.1 entry.2)) :=
      if_pos passes
    simp only [settleEach, settles]
    refine ih fun other member => ?_
    have kept := congr_update (Module.declares · other.1)
      (world.record m (.settled m entry.1 entry.2)) m m (·.bind entry.1 entry.2) fun _ => rfl
    rw [kept, module_record]
    exact others other member

theorem writes_merge (world : World σ) (m source : ModuleId) :
    world.Writes (world.merge m source) := by
  have counted (module : Module σ) :
      ((module.defineAll (world.offered source)).countMerge).core = module.core := by simp
  exact (writes_update world m counted).trans (writes_record _ m _)

theorem writes_forward (world : World σ) (m source : ModuleId) (localName remoteName : String)
    (value : Option Value) : world.Writes (world.forward m source localName remoteName value) :=
  (writes_record world m _).trans (writes_update _ m fun _ => Module.core_define ..)

end World

theorem Action.writes_perform (world : World σ) (action : Action) :
    world.Writes (action.perform world).2 := by
  cases action with
  | create names config => exact World.writes_create world names config
  | settle m name value => exact World.writes_settle world m name value
  | merge m source => exact World.writes_merge world m source
  | prepare id names => exact World.writes_prepare world id names
  | note label values => exact .of_modules_eq rfl
  | _ => exact .refl world

namespace Demand

theorem writes_deliver (how : Reading) (target : Target) (world : World σ)
    (result : Except Fault Value) : world.Writes (deliver how target world result).2 := by
  unfold deliver
  split
  · exact .refl world
  · split
    · exact .refl world
    · split
      · exact .refl world
      · exact World.writes_record world _ _

theorem writes_react (world : World σ) (demand : Demand) (progress : Progress) :
    world.Writes (demand.react world progress).2 := by
  unfold react
  split
  · exact .refl world
  · exact writes_deliver ..
  · exact writes_deliver ..
  · exact .refl world
  · exact .refl world
  · exact World.writes_forward ..
  · exact .refl world
  · exact World.writes_record ..
  · exact .refl world
  · exact .refl world
  · exact .refl world

theorem writes_proceed (world : World σ) (demand : Demand) : world.Writes (demand.proceed world).2 := by
  unfold proceed
  split
  · split
    · split
      · exact .refl world
      · exact writes_deliver ..
    · exact writes_deliver ..
  · exact .refl world
  · exact World.writes_forward ..
  · exact .refl world
  · exact .refl world

end Demand

theorem Module.firstUndeclared?_eq_none {module : Module σ} {entries : List (String × Value)} :
    module.firstUndeclared? entries = none ↔ ∀ entry ∈ entries, module.declares entry.1 = true := by
  simp [firstUndeclared?]

/-- A commit whose names have passed the check settles all of them. -/
theorem Machine.commit_eq (m : ModuleId) (entries : List (String × Value))
    (next : Outcome → Program σ) (stack : List (Frame σ)) (world : World σ) :
    commit m entries next stack world =
      match (world.module m).firstUndeclared? entries with
      | some name => ⟨.run (next (.failed (.undeclaredExport (world.label m) name))), stack, world⟩
      | none =>
        let settled := (world.record m (.committed m (world.module m).state)).settleAll m entries
        match (world.module m).state with
        | .pending | .completed => load m (.answer .unit) (.caller next :: stack) settled
        | _ => ⟨.run (next .unit), stack, settled⟩ := by
  unfold commit
  cases passed : (world.module m).firstUndeclared? entries with
  | some name => rfl
  | none =>
    have declared := Module.firstUndeclared?_eq_none.mp passed
    generalize marked : world.record m (.committed m (world.module m).state) = committed
    have same : committed.module m = world.module m := by rw [← marked, World.module_record]
    rw [← same] at declared
    have state := World.state_settleAll committed m entries
    rw [same] at state
    cases during : (world.module m).state <;>
      simp only [World.settleEach_of_declared declared, state, during]

end LiveBindings
