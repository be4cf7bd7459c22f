import LiveBindings.Proofs.History
import Mathlib.Logic.Relation

namespace LiveBindings

variable {σ : Type} {allowed : Program σ → Prop}

/-- The event tells neither of names nor of hooks. -/
def Event.Plain : Event → Prop
  | .settled .. | .forwarded .. | .merged .. | .hooksRun .. | .hookQueued .. | .hookStarted .. => False
  | _ => True

namespace World

inductive Change (world : World σ) : World σ → Prop
  /-- Something beside the modules and the journal. -/
  | aside {later : World σ} : later.modules = world.modules → later.journal = world.journal →
      Change world later
  | noted {event : Event} : event.Plain → Change world (world.log event)
  | created (names : List ExportName) (config : Config) : Change world (world.create names config).2
  | settled {m : ModuleId} {name : String} (value : Value) :
      (world.module m).declares name = true →
      Change world ((world.record m (.settled m name value)).update m (·.bind name value))
  | merged (m source : ModuleId) : Change world (world.merge m source)
  | forwarded (m source : ModuleId) (localName remoteName : String) (value : Option Value) :
      Change world (world.forward m source localName remoteName value)
  /-- A module loads only when its body has ended, or when it has none. -/
  | loaded {m : ModuleId} {queue : List (Hook σ)} : (world.module m).hooks = some queue →
      (m ∈ world → (world.module m).state = .pending ∨ (world.module m).state = .completed) →
      Change world ((world.update m Module.load).record m (.hooksRun m queue.length))
  | queued {m : ModuleId} {queue : List (Hook σ)} (code : ModuleId → Program σ) :
      (world.module m).hooks = some queue → Change world (world.enqueue m queue code)
  | registered {m : ModuleId} : (world.module m).hooks = none →
      Change world (world.update m (·.register none))
  | started {m : ModuleId} (ticket : Nat) : (world.module m).isLoaded = true →
      Change world (world.record m (.hookStarted m ticket))

abbrev Changes : World σ → World σ → Prop := Relation.ReflTransGen Change

variable {world later : World σ} {m : ModuleId}

theorem Changes.of_modules_eq (modules : later.modules = world.modules)
    (journal : later.journal = world.journal) : world.Changes later := .single (.aside modules journal)

theorem changes_record (world : World σ) (m : ModuleId) {event : Event} (plain : event.Plain) :
    world.Changes (world.record m event) := by
  unfold record
  split
  · exact .single (.noted plain)
  · exact .refl

theorem changes_prepare (world : World σ) (id : String) (names : List ExportName) :
    world.Changes (world.prepare id names).2 := by
  unfold prepare
  split
  · exact .refl
  · have logged : world.Changes (world.log (.prepared id)) := .single (.noted trivial)
    exact (logged.tail (.created names { world.template with label := some id })).tail
      (.aside rfl rfl)

theorem changes_settle (world : World σ) (m : ModuleId) (name : String) (value : Value) :
    world.Changes (world.settle m name value).2 := by
  unfold settle
  split
  · next declared => exact .single (.settled value declared)
  · exact .refl

/-- A module that was not made has no hooks, and has not loaded. -/
theorem mem_of_hooks {world : World σ} {m : ModuleId} {queue : List (Hook σ)}
    (waiting : (world.module m).hooks = some queue) (some : queue ≠ []) : m ∈ world := by
  refine Classical.byContradiction fun missing => some ?_
  rw [module_of_not_mem missing] at waiting
  exact (Option.some.inj waiting).symm

theorem mem_of_isLoaded {world : World σ} {m : ModuleId}
    (loaded : (world.module m).isLoaded = true) : m ∈ world := by
  refine Classical.byContradiction fun missing => ?_
  rw [module_of_not_mem missing] at loaded
  cases loaded

theorem changes_settleAll {entries : List (String × Value)}
    (declared : ∀ entry ∈ entries, (world.module m).declares entry.1 = true) :
    world.Changes (world.settleAll m entries) := by
  unfold settleAll
  induction entries generalizing world with
  | nil => exact .refl
  | cons entry rest ih =>
    obtain ⟨first, others⟩ := List.forall_mem_cons.mp declared
    rw [List.foldl_cons]
    refine .head (.settled entry.2 first) (ih fun other member => ?_)
    have kept := congr_update (Module.declares · other.1)
      (world.record m (.settled m entry.1 entry.2)) m m (·.bind entry.1 entry.2) fun _ => rfl
    rw [kept, module_record]
    exact others other member

theorem Change.keeps (change : world.Change later) : world.Keeps later := by
  cases change with
  | aside modules => exact .of_modules_eq modules
  | noted => exact .of_modules_eq rfl
  | created names config => exact (world.writes_create names config).keeps
  | @settled m name value =>
    have bound := writes_update (world.record m (.settled m name value)) m fun module =>
      Module.core_bind module name value
    exact ((world.writes_record m _).trans bound).keeps
  | merged m source => exact (world.writes_merge m source).keeps
  | forwarded => exact (world.writes_forward ..).keeps
  | @loaded m => exact (world.keeps_load m).trans (keeps_record _ m _)
  | @queued m queue code waiting => exact world.keeps_enqueue m code waiting
  | @registered m gone => exact world.keeps_update m rfl fun _ => by simp [Module.isLoaded, Module.register]
  | @started m => exact world.keeps_record m _

end World

theorem Action.changes_perform (world : World σ) (action : Action) :
    world.Changes (action.perform world).2 := by
  cases action with
  | create names config => exact .single (.created names config)
  | settle m name value => exact world.changes_settle m name value
  | merge m source => exact .single (.merged m source)
  | prepare id names => exact world.changes_prepare id names
  | note label values => exact .single (.noted trivial)
  | _ => exact .refl

namespace Demand

theorem changes_deliver (how : Reading) (target : Target) (world : World σ)
    (result : Except Fault Value) : world.Changes (deliver how target world result).2 := by
  unfold deliver
  split
  · exact .refl
  · split
    · exact .refl
    · split
      · exact .refl
      · refine world.changes_record _ ?_
        cases target <;> trivial

theorem changes_react (world : World σ) (demand : Demand) (progress : Progress) :
    world.Changes (demand.react world progress).2 := by
  unfold react
  split
  · exact .refl
  · exact changes_deliver ..
  · exact changes_deliver ..
  · exact .refl
  · exact .refl
  · exact .single (.forwarded ..)
  · exact .refl
  · exact world.changes_record _ (by trivial)
  · exact .refl
  · exact .refl
  · exact .refl

theorem changes_proceed (world : World σ) (demand : Demand) :
    world.Changes (demand.proceed world).2 := by
  unfold proceed
  split
  · split
    · split
      · exact .refl
      · exact changes_deliver ..
    · exact changes_deliver ..
  · exact .refl
  · exact .single (.forwarded ..)
  · exact .refl
  · exact .refl

end Demand

namespace Machine

/-- Hooks run only of modules that have loaded. -/
def Tended (machine : Machine σ) : Prop :=
  ∀ m rest after, .hooks m rest after ∈ machine.stack → (machine.world.module m).isLoaded = true

variable {world : World σ} {m : ModuleId}

theorem changes_runHooks (after : After) (stack : List (Frame σ)) (hooks : List (Hook σ))
    (loaded : hooks ≠ [] → (world.module m).isLoaded = true) :
    world.Changes (runHooks m after stack world hooks).world := by
  unfold runHooks
  split
  · exact .single (.started _ (loaded (List.cons_ne_nil _ _)))
  · split
    · exact Demand.changes_react ..
    · exact .refl

theorem changes_load (after : After) (stack : List (Frame σ))
    (ended : m ∈ world →
      (world.module m).state = .pending ∨ (world.module m).state = .completed) :
    world.Changes (load m after stack world).world := by
  unfold load
  split
  · exact changes_runHooks after stack [] fun some => absurd rfl some
  · next queue waiting =>
    refine .head (.loaded waiting ended) (changes_runHooks after stack queue fun some => ?_)
    rw [World.module_record, World.module_update_self _ (World.mem_of_hooks waiting some)]
    rfl

theorem changes_advance (demand : Demand) (m : ModuleId) (stack : List (Frame σ))
    (world : World σ) :
    ((world.turn m).apply world).Changes (advance demand m stack world).world := by
  unfold World.turn advance
  split
  · exact (world.changes_record m (by trivial)).trans (Demand.changes_react ..)
  · cases (world.module m).slot.readiness with
    | failed cause => exact Demand.changes_react ..
    | idle => exact Demand.changes_react ..
    | exhausted => exact Demand.changes_react ..
    | ready body => exact World.changes_record _ m (by trivial)

theorem changes_resumeFrame (stack : List (Frame σ)) (world : World σ) (frame : Frame σ)
    (outcome : Outcome) (tended : Tended ⟨.answer outcome, frame :: stack, world⟩) :
    ((frame.turn outcome).apply world).Changes (resumeFrame stack world frame outcome).world := by
  cases frame with
  | caller next => exact .refl
  | hooks m rest after =>
    have runs := changes_runHooks after stack rest fun _ => tended m rest after List.mem_cons_self
    cases outcome with
    | panicked message => exact .refl
    | failed cause => exact runs
    | returned value => exact runs
  | building m body =>
    cases outcome with
    | panicked message => exact .refl
    | failed cause => exact World.changes_record _ m (by trivial)
    | returned value => exact World.changes_record _ m (by trivial)
  | stepping m verdict demand =>
    cases outcome with
    | panicked message => exact .refl
    | failed cause => exact (World.changes_record _ m (by trivial)).trans (Demand.changes_react ..)
    | returned value =>
      cases report : verdict value with
      | yield =>
        simp only [Frame.turn, resumeFrame, report]
        exact Demand.changes_react ..
      | complete =>
        simp only [Frame.turn, resumeFrame, report]
        refine (World.changes_record _ m (by trivial)).trans (changes_load _ stack fun made => .inr ?_)
        have old : m ∈ world := by
          rwa [World.mem_iff, World.modules_record, Turn.apply, Turn.about?, Option.elim_some,
            World.length_update] at made
        rw [World.module_record, Turn.apply, Turn.about?, Option.elim_some,
          World.module_update_self _ old]
        rfl

theorem changes_commit (m : ModuleId) (entries : List (String × Value))
    (next : Outcome → Program σ) (stack : List (Frame σ)) (world : World σ) :
    world.Changes (commit m entries next stack world).world := by
  rw [commit_eq]
  split
  · exact .refl
  · next passed =>
    have declared : ∀ entry ∈ entries, (world.module m).declares entry.1 = true := by
      simpa [Module.firstUndeclared?] using passed
    generalize marked : world.record m (.committed m (world.module m).state) = committed
    have same : committed.module m = world.module m := by rw [← marked, World.module_record]
    have settled : world.Changes (committed.settleAll m entries) := by
      refine .trans ?_ (World.changes_settleAll (by rwa [same]))
      rw [← marked]
      exact world.changes_record m (by trivial)
    have state := (World.state_settleAll committed m entries).trans (congrArg Module.state same)
    dsimp only
    split
    · next pending => exact settled.trans (changes_load _ _ fun _ => .inl (state.trans pending))
    · next ended => exact settled.trans (changes_load _ _ fun _ => .inr (state.trans ended))
    · exact settled

theorem changes_importer (m : ModuleId) (hook : ModuleId → Program σ) (next : Outcome → Program σ)
    (stack : List (Frame σ)) (world : World σ) :
    world.Changes (importer m hook next stack world).world := by
  unfold importer
  split
  · next waiting => exact .single (.queued hook waiting)
  · next gone =>
    have made : m ∈ world := World.mem_of_isLoaded (by simp [Module.isLoaded, gone])
    refine .head (.registered gone) (changes_runHooks _ _ _ fun _ => ?_)
    rw [World.module_update_self _ made]
    rfl

theorem changes_program (program : Program σ) (stack : List (Frame σ)) (world : World σ)
    (tended : Tended ⟨.run program, stack, world⟩) :
    ((turn ⟨.run program, stack, world⟩).apply world).Changes
      (stepProgram stack world program).world := by
  cases program with
  | done outcome =>
    cases stack with
    | nil => exact .refl
    | cons frame rest => exact changes_resumeFrame rest world frame outcome tended
  | execute m factory code ending next =>
    simp only [turn, stepProgram, execute]
    split <;> exact .refl
  | host change next => exact .of_modules_eq rfl rfl
  | act action next => exact action.changes_perform world
  | demand demand next => exact .refl
  | commit m entries next => exact changes_commit ..
  | importer m hook next => exact changes_importer ..
  | function name code next => exact .of_modules_eq rfl rfl
  | call callee arguments next =>
    simp only [turn, stepProgram, call]
    split
    · split <;> exact .refl
    · exact .refl
  | detach code ending next => exact .of_modules_eq rfl rfl
  | resume id m next =>
    simp only [turn, stepProgram, resume]
    split
    · exact .of_modules_eq rfl rfl
    · exact .refl
  | remaining id next => exact .refl

/-- A transition makes its turn, and then changes the world one small change after another. -/
theorem changes_step {machine : Machine σ} (tended : machine.Tended) :
    (machine.turn.apply machine.world).Changes machine.step.world := by
  obtain ⟨control, stack, world⟩ := machine
  cases control with
  | run program => exact changes_program program stack world tended
  | demand demand =>
    simp only [turn, step, stepDemand]
    cases demand.awaited? world with
    | none => exact Demand.changes_proceed ..
    | some m => exact changes_advance demand m stack world

end Machine

end LiveBindings
