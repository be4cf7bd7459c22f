import LiveBindings.Proofs.Lifecycle
import LiveBindings.Proofs.Replay
import LiveBindings.Proofs.Resolution

namespace LiveBindings

open Machine

variable {σ : Type} {allowed : Program σ → Prop}

/-- No hook was run in between: those that waited still do, before any that came after them. -/
inductive Module.Waits (before after : Module σ) : Prop
  | loaded : before.hooks = none → after.hooks = none → Waits before after
  | queued {queue : List (Hook σ)} (more : List (Hook σ)) : before.hooks = some queue →
      after.hooks = some (queue ++ more) → Waits before after

namespace Module

variable {before middle after : Module σ}

theorem Waits.of_eq (same : after.hooks = before.hooks) : before.Waits after := by
  cases hooks : before.hooks with
  | none => exact .loaded hooks (same.trans hooks)
  | some queue => exact .queued [] hooks (by rw [same, hooks, List.append_nil])

theorem Waits.trans (early : before.Waits middle) (late : middle.Waits after) :
    before.Waits after := by
  cases early with
  | loaded none gone =>
    cases late with
    | loaded _ still => exact .loaded none still
    | queued _ waiting => cases gone.symm.trans waiting
  | queued first some waiting =>
    cases late with
    | loaded gone => cases gone.symm.trans waiting
    | queued second again more =>
      cases waiting.symm.trans again
      exact .queued (first ++ second) some (by rw [more, List.append_assoc])

theorem Waits.isLoaded (waits : before.Waits after) : after.isLoaded = before.isLoaded := by
  unfold Module.isLoaded
  cases waits with
  | loaded none still => rw [none, still]
  | queued _ some waiting => rw [some, waiting]; rfl

end Module

namespace World

variable {before after world : World σ} {m : ModuleId} {cause : Fault}

theorem Writes.waits (writes : before.Writes after) (made : m ∈ before) :
    (before.module m).Waits (after.module m) := by
  have same := congrArg Module.hooks (writes.core m made)
  exact .of_eq same

/-- A module is not loaded once its body has failed. -/
theorem Change.waits (change : before.Change after) (made : m ∈ before)
    (failed : (before.module m).state = .failed) : (before.module m).Waits (after.module m) := by
  cases change with
  | aside modules => exact (Writes.of_modules_eq modules).waits made
  | noted => exact .of_eq rfl
  | created names config => exact (before.writes_create names config).waits made
  | @settled n name value =>
    have bound := writes_update (before.record n (.settled n name value)) n fun module =>
      Module.core_bind module name value
    exact ((before.writes_record n _).trans bound).waits made
  | merged n source => exact (before.writes_merge n source).waits made
  | forwarded => exact (before.writes_forward ..).waits made
  | @loaded n queue waiting ended =>
    have other : m ≠ n := by
      rintro rfl
      rcases ended made with pending | completed
      · cases failed.symm.trans pending
      · cases failed.symm.trans completed
    rw [module_record, module_update_of_ne before other]
    exact .of_eq rfl
  | @queued n queue code waiting =>
    unfold enqueue
    rw [module_record]
    by_cases same : m = n
    · subst same
      rw [module_update_self _ made]
      exact .queued _ waiting rfl
    · rw [module_update_of_ne before same]
      exact .of_eq rfl
  | @registered n gone =>
    by_cases same : m = n
    · subst same
      rw [module_update_self _ made]
      exact .loaded gone rfl
    · rw [module_update_of_ne before same]
      exact .of_eq rfl
  | @started n =>
    rw [module_record]
    exact .of_eq rfl

theorem Change.state_eq (change : before.Change after) (made : m ∈ before) :
    (after.module m).state = (before.module m).state := by
  have life := change.keeps.life m made
  have slot := Module.slot_of_life life
  have held := congrArg Life.held life
  unfold Module.state
  rw [slot, show (after.module m).held = (before.module m).held from held]

theorem Changes.waits (changes : before.Changes after) (made : m ∈ before)
    (failed : (after.module m).state = .failed) : (before.module m).Waits (after.module m) := by
  have run : m ∈ after ∧ (after.module m).state = (before.module m).state ∧
      ((before.module m).state = .failed → (before.module m).Waits (after.module m)) := by
    clear failed
    induction changes with
    | refl => exact ⟨made, rfl, fun _ => .of_eq rfl⟩
    | tail _ last ih =>
      obtain ⟨still, same, waits⟩ := ih
      exact ⟨Nat.lt_of_lt_of_le still last.keeps.made, (last.state_eq still).trans same,
        fun failed => (waits failed).trans (last.waits still (same.trans failed))⟩
  obtain ⟨_, same, waits⟩ := run
  exact waits (same.symm.trans failed)

/-- The body of a module has failed. -/
structure Broken (world : World σ) (m : ModuleId) (cause : Fault) : Prop where
  free : (world.module m).held = false
  slot : (world.module m).slot = ⟨none, .failed, some cause⟩

namespace Broken

theorem state (broken : world.Broken m cause) : (world.module m).state = .failed := by
  simp [Module.state, broken.free, broken.slot]

theorem goes (broken : world.Broken m cause) :
    world.Goes m (.failed (.failed (world.label m) cause)) world :=
  .broken broken.free (by rw [broken.slot]; rfl)

theorem ends_finish (broken : world.Broken m cause) :
    (Control.demand (.finish m)).Ends world (.failed (.failed (world.label m) cause)) world :=
  Demand.reaches_of_goes rfl broken.goes

theorem ends_read {target : Target} {name : String} (broken : world.Broken target.source cause)
    (remote : target.remote = .ok name) (lacks : (world.module target.source).lacks name = true) :
    (Control.demand (.read .resolve target)).Ends world
      (.failed (.failed (world.label target.source) cause)) world := by
  have awaited : (Demand.read .resolve target).awaited? world = some target.source := by
    rw [Demand.awaited?_of_remote .resolve remote, if_pos lacks]
  exact Demand.reaches_of_goes awaited broken.goes

theorem step_execute (broken : world.Broken m cause) (factory : Program σ)
    (code : Nat → ModuleId → Program σ) (ending : Ending) (next : Outcome → Program σ)
    (stack : List (Frame σ)) :
    Machine.step ⟨.run (.execute m factory code ending next), stack, world⟩ =
      ⟨.run (next (.failed (.alreadyAttached (world.label m)))), stack, world⟩ := by
  simp [Machine.step, stepProgram, execute, broken.slot]

theorem not_mem_owners {frames : List (Frame σ)} (broken : world.Broken m cause)
    (orderly : Orderly world frames) : m ∉ owners frames := by
  intro inside
  cases broken.free.symm.trans ((orderly.held m).mp inside).2

/-- No turn is about a module whose body has failed. -/
theorem about?_ne {machine : Machine σ} (broken : machine.world.Broken m cause)
    (orderly : Orderly machine.world (holding machine.stack)) : machine.turn.about? ≠ some m := by
  intro about
  have going :=
    (orderly.state_change machine.transition.enabled machine.transition.moves about).1
  rw [broken.slot] at going
  cases going

end Broken

end World

namespace Run

variable {machine later : Machine σ} {turns : List (Turn σ)} {m : ModuleId} {cause : Fault}

theorem waits_step (run : Run allowed machine turns) (made : m ∈ machine.world)
    (failed : (machine.step.world.module m).state = .failed) :
    (machine.world.module m).Waits (machine.step.world.module m) := by
  have turned : (machine.world.module m).Waits ((machine.turn.apply machine.world).module m) := by
    refine .of_eq (machine.turn.congr_apply Module.hooks machine.world m fun module => ?_)
    cases machine.turn <;> rfl
  have still : m ∈ machine.turn.apply machine.world := by
    rwa [World.mem_iff, Turn.length_apply]
  exact turned.trans ((Machine.changes_step run.tended).waits still failed)

theorem mem_of_failed (run : Run allowed machine turns) (failed : machine.turn = .failed m cause) :
    m ∈ machine.world := by
  have about : machine.turn.about? = some m := by rw [failed]; rfl
  exact run.orderly.mem_of_about machine.transition.enabled machine.transition.moves about

/-- What a failed step leaves of its body is there for good. -/
theorem life_of_failed (run : Run allowed machine turns) (failed : machine.turn = .failed m cause)
    (after : machine.step.Precedes later) : (later.world.module m).life =
      ⟨⟨none, .failed, some cause⟩, false, (machine.world.module m).steps⟩ := by
  have made := run.mem_of_failed failed
  have about : machine.turn.about? = some m := by rw [failed]; rfl
  have now := Machine.life_step_of_about made about
  rw [failed] at now
  have final : (machine.step.world.module m).slot.state.isFinal = true := by
    rw [Module.slot_of_life now]
    rfl
  exact (run.step.life_of_final after (Machine.made_of_made made) final).2.trans now

theorem broken_of_failed (run : Run allowed machine turns) (failed : machine.turn = .failed m cause)
    (after : machine.step.Precedes later) : later.world.Broken m cause := by
  have life := run.life_of_failed failed after
  exact ⟨congrArg Life.held life, congrArg Life.slot life⟩

theorem waits_of_failed (run : Run allowed machine turns) (failed : machine.turn = .failed m cause)
    (after : machine.step.Precedes later) :
    (machine.world.module m).Waits (later.world.module m) := by
  have made := run.mem_of_failed failed
  have broken {later : Machine σ} (after : machine.step.Precedes later) :=
    (run.broken_of_failed failed after).state
  induction after with
  | refl => exact run.waits_step made (broken (.refl _))
  | next _ _ _ ih => exact ih
  | step after ih =>
    obtain ⟨_, between⟩ := after.run run.weaken.step
    have still := World.mem_of_free (run.broken_of_failed failed after).free
    exact ih.trans (between.waits_step still (broken after.step))

end Run

/-- How a module behaves after a step of its body has failed with a cause: the machine that was about to
hand the fault to the step, and a machine that comes after it. -/
structure Machine.StaysFailed (m : ModuleId) (cause : Fault) (machine later : Machine σ) : Prop where
  state : (later.world.module m).state = .failed
  steps : (later.world.module m).steps = (machine.world.module m).steps
  loaded : (later.world.module m).isLoaded = (machine.world.module m).isLoaded
  /-- The hooks that waited at the failure still wait, and no hook of the module has begun. -/
  hooks : ∀ queue, (machine.world.module m).hooks = some queue →
    (∃ more, (later.world.module m).hooks = some (queue ++ more)) ∧
      ∀ ticket, .hookStarted m ticket ∉ later.world.journal
  outside : m ∉ owners later.stack
  /-- Nothing happens to the body. -/
  still : later.turn.about? ≠ some m
  finish : (Control.demand (.finish m)).Ends later.world
    (.failed (.failed (machine.world.label m) cause)) later.world
  lacked : ∀ target name, target.source = m → target.remote = .ok name →
    (later.world.module m).lacks name = true →
      (Control.demand (.read .resolve target)).Ends later.world
        (.failed (.failed (machine.world.label m) cause)) later.world
  /-- A name that was settled by then reads as it did, or as it was written last since. -/
  settled : ∃ events, later.world.journal = events ++ machine.world.journal ∧
    ∀ how target name value, target.source = m → target.remote = .ok name →
      (machine.world.module m).peek name = some value →
        (Control.demand (.read how target)).Ends later.world
          (.returned ((events.findSome? (·.written? m name)).getD value)) later.world
  execute : ∀ factory code ending next stack,
    Machine.step ⟨.run (.execute m factory code ending next), stack, later.world⟩ =
      ⟨.run (next (.failed (.alreadyAttached (machine.world.label m)))), stack, later.world⟩

/-- Once a step of a body has failed, its module stays failed whatever runs afterwards. -/
theorem failure_is_final {machine later : Machine σ} {turns : List (Turn σ)} {m : ModuleId}
    {cause : Fault} (run : Run allowed machine turns) (failed : machine.turn = .failed m cause)
    (after : machine.step.Precedes later) : machine.StaysFailed m cause later := by
  have made := run.mem_of_failed failed
  have life := run.life_of_failed failed after
  have broken := run.broken_of_failed failed after
  have waits := run.waits_of_failed failed after
  obtain ⟨_, ran⟩ := after.run run.weaken.step
  have still := World.mem_of_free broken.free
  have label : later.world.label m = machine.world.label m :=
    ((Machine.grows_step machine).trans after.grows).label made
  have same : Fault.failed (later.world.label m) cause = .failed (machine.world.label m) cause :=
    congrArg (Fault.failed · cause) label
  refine ⟨broken.state, congrArg Life.steps life, waits.isLoaded, ?_, ?_, ?_, ?_, ?_, ?_, ?_⟩
  · intro queue waiting
    cases waits with
    | loaded none => cases none.symm.trans waiting
    | queued more some waits =>
      cases some.symm.trans waiting
      refine ⟨⟨more, waits⟩, fun ticket started => ?_⟩
      have loaded := ran.isLoaded_of_started started
      simp [Module.isLoaded, waits] at loaded
  · rw [← owners_holding]
    exact broken.not_mem_owners ran.orderly
  · exact broken.about?_ne ran.orderly
  · rw [← same]
    exact broken.ends_finish
  · rintro target name rfl remote lacks
    rw [← same]
    exact broken.ends_read remote lacks
  · obtain ⟨first, begins⟩ := World.obeyed_replays.step run.tended
    obtain ⟨rest, goesOn⟩ := World.obeyed_replays.precedes run.step after
    have replays := begins.trans goesOn
    refine ⟨rest ++ first, replays.journal, ?_⟩
    rintro how target name value rfl remote settled
    refine Demand.ends_read_of_settled how remote ?_
    rw [replays.peek made, settled]
    cases (rest ++ first).findSome? (·.written? target.source name) <;> rfl
  · intro factory code ending next stack
    rw [← label]
    exact broken.step_execute factory code ending next stack

/-- A module with a hook fails at its second statement; all its names are committed afterwards, and
another body is offered to it. -/
def faltering : Program Unit :=
  Code.program do
    let m ← Code.create [.named "x", .named "y"] .standard
    let _ ← Code.importer m fun m => Code.settle m "x" (.boolean true)
    let _ ← Code.executeStatements m Code.unit
      [fun m => Code.settle m "x" .null, fun _ => Code.fail (.body "late")]
    let _ ← (Code.finish m).outcome
    let _ ← Code.commit m [("x", .boolean false)]
    Code.executeStatements m Code.unit []

def faltered : Machine Unit := (Machine.start faltering (.empty .standard ())).after 11

theorem failure_is_final_of_faltering :
    let later := faltered.step.after 3
    faltered.turn = .failed 0 (.body "late") ∧
      ((faltered.world.module 0).hooks.map List.length) = some 1 ∧
      later.outcome? = some (.failed (.alreadyAttached (faltered.world.label 0))) ∧
      (later.world.module 0).peek "x" = some (.boolean false) ∧
      faltered.StaysFailed 0 (.body "late") later := by
  intro later
  have run : Run (fun _ => True) faltered _ := (Run.start .standard () trivial).after 11
  have failed : faltered.turn = .failed 0 (.body "late") := rfl
  have after : faltered.step.Precedes later := faltered.step.precedes_after 3
  exact ⟨failed, rfl, rfl, rfl, failure_is_final run failed after⟩

end LiveBindings
