import LiveBindings.Proofs.Orderly

namespace LiveBindings

variable {σ : Type}

namespace Module

structure Grows (before after : Module σ) : Prop where
  config : after.config = before.config
  wildcards : after.wildcards = before.wildcards
  declares : ∀ name, before.declares name = true → after.declares name = true
  settles : ∀ name, (before.peek name).isSome = true → (after.peek name).isSome = true
  merges : before.merges ≤ after.merges

theorem Grows.refl (module : Module σ) : module.Grows module :=
  ⟨rfl, rfl, fun _ declared => declared, fun _ settled => settled, Nat.le_refl _⟩

theorem Grows.trans {first middle last : Module σ} (early : first.Grows middle)
    (late : middle.Grows last) : first.Grows last where
  config := late.config.trans early.config
  wildcards := late.wildcards.trans early.wildcards
  declares name declared := late.declares name (early.declares name declared)
  settles name settled := late.settles name (early.settles name settled)
  merges := Nat.le_trans early.merges late.merges

theorem grows_bind (module : Module σ) (name : String) (value : Value) :
    module.Grows (module.bind name value) := by
  refine ⟨rfl, rfl, fun _ declared => declared, fun other settled => ?_, Nat.le_refl _⟩
  rw [peek, bind, Table.find?_insert]
  split
  · rfl
  · exact settled

theorem grows_declare (module : Module σ) (name : String) :
    module.Grows { module with declared := module.declared.add name } := by
  refine ⟨rfl, rfl, fun other declared => ?_, fun _ settled => settled, Nat.le_refl _⟩
  have member : other ∈ module.declared := declared
  exact NameSet.mem_add.mpr (.inr member)

theorem grows_define (module : Module σ) (name : String) (value : Option Value) :
    module.Grows (module.define name value) := by
  have declared := module.grows_declare name
  cases value with
  | none => exact declared
  | some value => exact declared.trans (grows_bind _ name value)

theorem grows_defineAll (module : Module σ) (entries : List (String × Value)) :
    module.Grows (module.defineAll entries) := by
  unfold defineAll
  induction entries generalizing module with
  | nil => exact .refl module
  | cons entry rest ih =>
    rw [List.foldl_cons]
    exact (module.grows_define entry.1 (some entry.2)).trans (ih _)

theorem grows_countMerge (module : Module σ) : module.Grows module.countMerge :=
  ⟨rfl, rfl, fun _ declared => declared, fun _ settled => settled, Nat.le_succ _⟩

/-- The module without its body and its hooks. -/
def surface (module : Module σ) : Module σ :=
  { module with slot := .empty, held := false, steps := 0, hooks := none, tickets := 0 }

theorem grows_of_surface {before after : Module σ} (same : after.surface = before.surface) :
    before.Grows after where
  config := (congrArg Module.config same :)
  wildcards := (congrArg Module.wildcards same :)
  declares name declared := (congrArg (Module.declares · name) same).trans declared
  settles name settled := (congrArg (fun module => (Module.peek module name).isSome) same).trans settled
  merges := Nat.le_of_eq (congrArg Module.merges same).symm

theorem surface_change (module : Module σ) (turn : Turn σ) :
    (turn.change module).surface = module.surface := by
  cases turn <;> rfl

end Module

namespace World

structure Grows (before after : World σ) : Prop where
  made : before.modules.length ≤ after.modules.length
  module : ∀ m ∈ before, (before.module m).Grows (after.module m)

theorem Grows.of_modules_eq {before after : World σ} (same : after.modules = before.modules) :
    before.Grows after where
  made := Nat.le_of_eq (congrArg List.length same.symm)
  module m _ := by
    rw [module_eq_of_modules_eq same]
    exact .refl _

theorem Grows.refl (world : World σ) : world.Grows world := .of_modules_eq rfl

theorem Grows.trans {first middle last : World σ} (early : first.Grows middle)
    (late : middle.Grows last) : first.Grows last where
  made := Nat.le_trans early.made late.made
  module m member :=
    (early.module m member).trans (late.module m (Nat.lt_of_lt_of_le member early.made))

theorem Grows.mem {before after : World σ} (grows : before.Grows after) {m : ModuleId}
    (made : m ∈ before) : m ∈ after := Nat.lt_of_lt_of_le made grows.made

theorem Grows.label {before after : World σ} (grows : before.Grows after) {m : ModuleId}
    (made : m ∈ before) : after.label m = before.label m :=
  congrArg Config.shownLabel (grows.module m made).config

theorem grows_record (world : World σ) (m : ModuleId) (event : Event) :
    world.Grows (world.record m event) := .of_modules_eq (modules_record world m event)

theorem grows_update (world : World σ) (m : ModuleId) {change : Module σ → Module σ}
    (grows : ∀ module : Module σ, module.Grows (change module)) :
    world.Grows (world.update m change) where
  made := Nat.le_of_eq (length_update world m change).symm
  module other member := by
    by_cases same : other = m
    · subst other
      rw [module_update_self change member]
      exact grows _
    · rw [module_update_of_ne world same]
      exact .refl _

theorem grows_update_of_surface (world : World σ) (m : ModuleId) {change : Module σ → Module σ}
    (same : ∀ module, (change module).surface = module.surface) :
    world.Grows (world.update m change) :=
  world.grows_update m fun module => Module.grows_of_surface (same module)

theorem grows_create (world : World σ) (names : List ExportName) (config : Config) :
    world.Grows (world.create names config).2 where
  made := by simp [create]
  module m member := by
    rw [module_create_of_mem member]
    exact .refl _

theorem grows_prepare (world : World σ) (id : String) (names : List ExportName) :
    world.Grows (world.prepare id names).2 := by
  unfold prepare
  split
  · exact .refl world
  · have logged : world.Grows (world.log (.prepared id)) := .of_modules_eq rfl
    exact (logged.trans (grows_create _ names _)).trans (.of_modules_eq rfl)

theorem grows_settle (world : World σ) (m : ModuleId) (name : String) (value : Value) :
    world.Grows (world.settle m name value).2 := by
  unfold settle
  split
  · exact (world.grows_record m _).trans (grows_update _ m fun module => module.grows_bind name value)
  · exact .refl world

theorem grows_settleAll (world : World σ) (m : ModuleId) (entries : List (String × Value)) :
    world.Grows (world.settleAll m entries) := by
  unfold settleAll
  induction entries generalizing world with
  | nil => exact .refl world
  | cons entry rest ih =>
    rw [List.foldl_cons]
    have logged := world.grows_record m (.settled m entry.1 entry.2)
    have bound := grows_update (world.record m (.settled m entry.1 entry.2)) m fun module =>
      module.grows_bind entry.1 entry.2
    exact (logged.trans bound).trans (ih _)

theorem grows_merge (world : World σ) (m source : ModuleId) :
    world.Grows (world.merge m source) := by
  have merged := world.grows_update m fun module =>
    (module.grows_defineAll (world.offered source)).trans (Module.grows_countMerge _)
  exact merged.trans (grows_record _ m _)

theorem grows_forward (world : World σ) (m source : ModuleId) (localName remoteName : String)
    (value : Option Value) : world.Grows (world.forward m source localName remoteName value) :=
  (world.grows_record m _).trans (grows_update _ m fun module => module.grows_define localName value)

theorem grows_enqueue (world : World σ) (m : ModuleId) (queue : List (Hook σ))
    (code : ModuleId → Program σ) : world.Grows (world.enqueue m queue code) := by
  refine Grows.trans ?_ (grows_record _ m _)
  exact world.grows_update_of_surface m fun _ => rfl

end World

theorem Action.grows_perform (world : World σ) (action : Action) :
    world.Grows (action.perform world).2 := by
  cases action with
  | create names config => exact world.grows_create names config
  | settle m name value => exact world.grows_settle m name value
  | merge m source => exact world.grows_merge m source
  | prepare id names => exact world.grows_prepare id names
  | note label values => exact .of_modules_eq rfl
  | _ => exact .refl world

namespace Demand

theorem grows_deliver (how : Reading) (target : Target) (world : World σ)
    (result : Except Fault Value) : world.Grows (deliver how target world result).2 := by
  unfold deliver
  split
  · exact .refl world
  · split
    · exact .refl world
    · split
      · exact .refl world
      · exact world.grows_record _ _

theorem grows_react (world : World σ) (demand : Demand) (progress : Progress) :
    world.Grows (demand.react world progress).2 := by
  unfold react
  split
  · exact .refl world
  · exact grows_deliver ..
  · exact grows_deliver ..
  · exact .refl world
  · exact .refl world
  · exact world.grows_forward ..
  · exact .refl world
  · exact world.grows_record ..
  all_goals exact .refl world

theorem grows_proceed (world : World σ) (demand : Demand) :
    world.Grows (demand.proceed world).2 := by
  unfold proceed
  split
  · split
    · split
      · exact .refl world
      · exact grows_deliver ..
    · exact grows_deliver ..
  · exact .refl world
  · exact world.grows_forward ..
  all_goals exact .refl world

end Demand

namespace Machine

theorem grows_advance (demand : Demand) (m : ModuleId) (stack : List (Frame σ)) (world : World σ) :
    world.Grows (advance demand m stack world).world := by
  unfold advance
  split
  · exact (world.grows_record m _).trans (Demand.grows_react ..)
  · split
    · exact Demand.grows_react ..
    · exact Demand.grows_react ..
    · exact Demand.grows_react ..
    · refine World.Grows.trans ?_ (World.grows_record _ m _)
      exact world.grows_update_of_surface m fun _ => rfl

theorem grows_runHooks (m : ModuleId) (after : After) (stack : List (Frame σ)) (world : World σ)
    (hooks : List (Hook σ)) : world.Grows (runHooks m after stack world hooks).world := by
  unfold runHooks
  split
  · exact world.grows_record m _
  · split
    · exact Demand.grows_react ..
    · exact .refl world

theorem grows_load (m : ModuleId) (after : After) (stack : List (Frame σ)) (world : World σ) :
    world.Grows (load m after stack world).world := by
  unfold load
  split
  · exact grows_runHooks ..
  · have loaded : world.Grows (world.update m Module.load) :=
      world.grows_update_of_surface m fun _ => rfl
    exact (loaded.trans (World.grows_record _ m _)).trans (grows_runHooks ..)

theorem grows_resumeFrame (stack : List (Frame σ)) (world : World σ) (frame : Frame σ)
    (outcome : Outcome) : world.Grows (resumeFrame stack world frame outcome).world := by
  have turned (m : ModuleId) (turn : Turn σ) : world.Grows (world.update m turn.change) :=
    world.grows_update_of_surface m fun module => module.surface_change turn
  unfold resumeFrame
  split
  · exact .refl world
  · next m _ _ message => exact turned m (.unwound m message)
  · next m _ _ cause =>
    exact ((turned m (.failed m cause)).trans (World.grows_record _ m _)).trans
      (Demand.grows_react ..)
  · next m _ _ value =>
    split
    · exact (turned m (.yielded m value)).trans (Demand.grows_react ..)
    · exact ((turned m (.completed m value)).trans (World.grows_record _ m _)).trans (grows_load ..)
  · next m _ _ => exact turned m (.dropped m)
  · next m body _ => exact (turned m (.attached m body)).trans (World.grows_record _ m _)
  · exact .refl world
  · exact grows_runHooks ..

theorem grows_stepProgram (stack : List (Frame σ)) (world : World σ) (program : Program σ) :
    world.Grows (stepProgram stack world program).world := by
  cases program with
  | done outcome =>
    cases stack with
    | nil => exact .refl world
    | cons frame rest => exact grows_resumeFrame ..
  | act action next => exact action.grows_perform world
  | commit m entries next =>
    simp only [stepProgram, commit_eq]
    split
    · exact .refl world
    · have settled (event : Event) : world.Grows ((world.record m event).settleAll m entries) :=
        (world.grows_record m event).trans (World.grows_settleAll _ m entries)
      split
      · exact (settled _).trans (grows_load ..)
      · exact (settled _).trans (grows_load ..)
      · exact settled _
  | execute m factory code ending next =>
    simp only [stepProgram, execute]
    split
    · exact world.grows_update_of_surface m fun _ => rfl
    · exact .refl world
  | importer m hook next =>
    simp only [stepProgram, importer]
    split
    · exact world.grows_enqueue ..
    · refine World.Grows.trans ?_ (grows_runHooks ..)
      exact world.grows_update_of_surface m fun _ => rfl
  | call callee arguments next =>
    simp only [stepProgram, call]
    split
    · split <;> exact .refl world
    · exact .refl world
  | resume id m next =>
    simp only [stepProgram, resume]
    split
    · exact .of_modules_eq rfl
    · exact .refl world
  | demand demand next => exact .refl world
  | remaining id next => exact .refl world
  | host change next => exact .of_modules_eq rfl
  | function name code next => exact .of_modules_eq rfl
  | detach code ending next => exact .of_modules_eq rfl

theorem grows_step (machine : Machine σ) : machine.world.Grows machine.step.world := by
  obtain ⟨control, stack, world⟩ := machine
  cases control with
  | run program => exact grows_stepProgram stack world program
  | demand demand =>
    simp only [step, stepDemand]
    split
    · exact grows_advance ..
    · exact Demand.grows_proceed ..

theorem Reaches.grows {first last : Machine σ} (reach : Reaches first last) :
    first.world.Grows last.world := by
  induction reach with
  | refl => exact .refl _
  | @step first last _ ih => exact first.grows_step.trans ih

theorem Precedes.grows {machine later : Machine σ} (precedes : machine.Precedes later) :
    machine.world.Grows later.world := by
  induction precedes with
  | refl => exact .refl _
  | step _ ih => exact ih.trans (grows_step _)
  | next _ _ _ ih => exact ih

theorem Reaches.orderly {first last : Machine σ} (reach : Reaches first last)
    (orderly : Orderly first.world (holding first.stack)) :
    Orderly last.world (holding last.stack) := by
  induction reach with
  | refl => exact orderly
  | step _ ih => exact ih (orderly_step orderly)

theorem Reaches.life_of_final {first last : Machine σ} (reach : Reaches first last)
    (orderly : Orderly first.world (holding first.stack)) {m : ModuleId} (made : m ∈ first.world)
    (final : (first.world.module m).slot.state.isFinal = true) :
    (last.world.module m).life = (first.world.module m).life := by
  induction reach with
  | refl => rfl
  | @step first last _ ih =>
    have same : (first.step.world.module m).life = (first.world.module m).life := by
      refine life_step_of_not_about made fun about => ?_
      have going := (orderly.state_change first.transition.enabled first.transition.moves about).1
      rw [final] at going
      cases going
    have later := ih (orderly_step orderly) (made_of_made made) (by rwa [Module.slot_of_life same])
    exact later.trans same

end Machine

end LiveBindings
