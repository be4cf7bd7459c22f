import LiveBindings.Operation
import LiveBindings.Proofs.Orderly

namespace LiveBindings

variable {σ : Type} {allowed : Program σ → Prop}

/-- What a module that nobody holds tells about its body: the stored state says whether the body is
there and whether it failed. -/
structure Module.AtRest (module : Module σ) : Prop where
  still : module.slot.state ≠ .running
  pending : module.slot.state = .pending →
    module.slot.body = none ∧ module.slot.failure = none ∧ module.steps = 0
  suspended : module.slot.state = .suspended ↔ module.slot.body.isSome
  unharmed : module.slot.state = .suspended → module.slot.failure = none
  completed : module.slot.state = .completed →
    module.slot.body = none ∧ module.slot.failure = none ∧ module.isLoaded = true
  failed : module.slot.state = .failed ↔ module.slot.failure.isSome
  broken : module.slot.state = .failed → module.slot.body = none

theorem Life.Shaped.atRest {module : Module σ} (shaped : module.life.Shaped)
    (loaded : module.slot.state = .completed → module.isLoaded = true) : module.AtRest := by
  generalize life : module.life = kept at shaped
  have slot := congrArg Life.slot life
  have steps := congrArg Life.steps life
  cases shaped with
  | pending => constructor <;> simp_all [Module.life, Slot.empty]
  | suspended => constructor <;> simp_all [Module.life]
  | completed => constructor <;> simp_all [Module.life]
  | failed => constructor <;> simp_all [Module.life]

theorem World.mem_of_completed {world : World σ} {m : ModuleId}
    (completed : (world.module m).slot.state = .completed) : m ∈ world := by
  refine Classical.byContradiction fun missing => ?_
  rw [module_of_not_mem missing] at completed
  cases completed

namespace Run

variable {machine later : Machine σ} {turns : List (Turn σ)} {m : ModuleId}

theorem state_step (run : Run allowed machine turns) (made : m ∈ machine.world) :
    (machine.step.world.module m).slot.state = (machine.world.module m).slot.state ∨
      (machine.world.module m).slot.state.Moves (machine.step.world.module m).slot.state := by
  by_cases about : machine.turn.about? = some m
  · rw [Module.slot_of_life (Machine.life_step_of_about made about)]
    exact (run.orderly.state_change machine.transition.enabled machine.transition.moves about).2
  · rw [Module.slot_of_life (Machine.life_step_of_not_about made about)]
    exact Or.inl rfl

theorem life_step_of_final (run : Run allowed machine turns) (made : m ∈ machine.world)
    (final : (machine.world.module m).slot.state.isFinal = true) :
    (machine.step.world.module m).life = (machine.world.module m).life := by
  refine Machine.life_step_of_not_about made fun about => ?_
  have before := (run.orderly.state_change machine.transition.enabled
    machine.transition.moves about).1
  rw [final] at before
  cases before

theorem life_of_final (run : Run allowed machine turns) (precedes : machine.Precedes later)
    (made : m ∈ machine.world) (final : (machine.world.module m).slot.state.isFinal = true) :
    m ∈ later.world ∧ (later.world.module m).life = (machine.world.module m).life := by
  induction precedes with
  | refl => exact ⟨made, rfl⟩
  | step precedes ih =>
    obtain ⟨still, same⟩ := ih
    obtain ⟨_, run⟩ := precedes.run run.weaken
    refine ⟨Machine.made_of_made still, Eq.trans (run.life_step_of_final still ?_) same⟩
    rwa [Module.slot_of_life same]
  | next _ _ _ ih => exact ih

/-- Only the last step of a body makes the stored state completed. -/
theorem completed_step (run : Run allowed machine turns)
    (completed : (machine.step.world.module m).slot.state = .completed) :
    (machine.world.module m).slot.state = .completed ∨ ∃ value, machine.turn = .completed m value := by
  by_cases about : machine.turn.about? = some m
  · have old := run.orderly.mem_of_about machine.transition.enabled machine.transition.moves about
    have going := (run.orderly.state_change machine.transition.enabled
      machine.transition.moves about).1
    rw [Module.slot_of_life (Machine.life_step_of_about old about)] at completed
    obtain ⟨other, value, turn⟩ := Turn.completed_of_change going completed
    rw [turn] at about
    cases about
    exact .inr ⟨value, turn⟩
  · by_cases old : m ∈ machine.world
    · rw [Module.slot_of_life (Machine.life_step_of_not_about old about)] at completed
      exact .inl completed
    · have made := World.mem_of_completed completed
      have slot := congrArg Life.slot (Machine.life_step_of_not_mem made old)
      rw [show (machine.step.world.module m).slot = .empty from slot] at completed
      cases completed

/-- A body that has ended has loaded its module. -/
theorem isLoaded_of_completed (run : Run allowed machine turns) (made : m ∈ machine.world)
    (completed : (machine.world.module m).slot.state = .completed) :
    (machine.world.module m).isLoaded = true := by
  induction run with
  | start template host => exact absurd made (Nat.not_lt_zero m)
  | next _ _ _ ih => exact ih made completed
  | @step machine turns run ih =>
    rcases run.completed_step completed with before | ⟨value, turn⟩
    · have old := World.mem_of_completed before
      exact Machine.isLoaded_step old (ih old before)
    · have old := run.orderly.mem_of_about machine.transition.enabled machine.transition.moves
        (congrArg Turn.about? turn)
      exact machine.transition.loads m value turn old

theorem readiness_of_exhausted (run : Run allowed machine turns) (made : m ∈ machine.world)
    (exhausted : (machine.world.module m).slot.readiness = .exhausted) :
    (machine.world.module m).slot.state = .completed := by
  have shaped := run.orderly.shaped m made
  generalize life : (machine.world.module m).life = kept at shaped
  rw [show (machine.world.module m).slot = kept.slot from congrArg Life.slot life] at exhausted ⊢
  cases shaped with
  | completed => rfl
  | pending | suspended | failed => cases exhausted

end Run

/-- In every run, the stored state of a module that nobody holds is in accord with what the slot
has; it moves along the lifecycle only, and stays for good with the count of steps once the body has
ended; nobody holds a module between the operations of a program that runs from outside, whatever
panics it caught; and a slot is taken for exhausted only when its body completed. -/
theorem lifecycle_of_run {machine : Machine σ} {turns : List (Turn σ)}
    (run : Run allowed machine turns) :
    (∀ m ∈ machine.world, (machine.world.module m).held = false →
      (machine.world.module m).AtRest) ∧
    (∀ m ∈ machine.world,
      (machine.step.world.module m).slot.state = (machine.world.module m).slot.state ∨
        (machine.world.module m).slot.state.Moves (machine.step.world.module m).slot.state) ∧
    (∀ m ∈ machine.world, (machine.world.module m).slot.state.isFinal = true →
      ∀ later, machine.Precedes later →
        (later.world.module m).slot.state = (machine.world.module m).slot.state ∧
          (later.world.module m).steps = (machine.world.module m).steps) ∧
    (machine.stack = [] → ∀ m ∈ machine.world,
      (machine.world.module m).held = false ∧ (machine.world.module m).state ≠ .running) ∧
    ∀ m ∈ machine.world, (machine.world.module m).slot.readiness = .exhausted →
      (machine.world.module m).slot.state = .completed := by
  have rest (m : ModuleId) (made : m ∈ machine.world) : (machine.world.module m).AtRest :=
    (run.orderly.shaped m made).atRest (run.isLoaded_of_completed made)
  refine ⟨fun m made _ => rest m made, fun m made => run.state_step made, ?_, ?_, ?_⟩
  · intro m made final later precedes
    have same := (run.life_of_final precedes made final).2
    exact ⟨congrArg Slot.state (Module.slot_of_life same), Module.steps_of_life same⟩
  · intro empty m made
    have free : (machine.world.module m).held = false := by
      rw [← Bool.not_eq_true, run.held_iff made, empty]
      rintro ⟨frame, member, _⟩
      cases member
    refine ⟨free, ?_⟩
    rw [Module.state, free]
    exact (rest m made).still
  · intro m made exhausted
    exact run.readiness_of_exhausted made exhausted

/-- The statements of a module that reads from another one before it settles its own name. -/
def readerStatements (writer : ModuleId) : List (ModuleId → Code Unit Value) :=
  [fun _ => Code.get writer "y", fun m => Code.settle m "x" .null]

/-- A module reads from another one, whose body writes a name that it does not declare. The panic of
the inner read goes through both bodies and is caught outside them; then the reader is finished. -/
def caughtPanic : Program Unit :=
  Code.program do
    let reader ← Code.create [.named "x"] .standard
    let writer ← Code.create [.named "y"] .standard
    let _ ← Code.executeStatements writer Code.unit [fun m => Code.settle m "typo" .undefined]
    let _ ← Code.executeStatements reader Code.unit (readerStatements writer)
    let _ ← (Code.get reader "x").outcome
    Code.finish reader

theorem lifecycle_of_caughtPanic :
    let machine := (Machine.start caughtPanic (.empty .standard ())).after 19
    machine.stack = [] ∧ 0 ∈ machine.world ∧ (machine.world.module 0).held = false ∧
      (machine.world.module 0).AtRest ∧ (machine.world.module 0).slot.state = .suspended ∧
      (machine.world.module 0).steps = 1 ∧ (machine.world.module 1).slot.state = .failed ∧
      ∀ later, machine.Precedes later → (later.world.module 1).slot.state = .failed := by
  intro machine
  have run : Run (fun _ => True) machine _ := (Run.start .standard () trivial).after 19
  obtain ⟨rest, _, final, free, _⟩ := lifecycle_of_run run
  have made : 0 ∈ machine.world := show 0 < 2 by decide
  have nobody := (free rfl 0 made).1
  refine ⟨rfl, made, nobody, rest 0 made nobody, rfl, rfl, rfl, fun later precedes => ?_⟩
  exact (final 1 (show 1 < 2 by decide) rfl later precedes).1

end LiveBindings
