import LiveBindings.Proofs.Advance
import LiveBindings.Proofs.Reading

namespace LiveBindings

variable {σ : Type} {allowed : Program σ → Prop}

namespace World

/-- Nothing but the journal has gone on. -/
def Notes (before after : World σ) : Prop :=
  ∃ events, after = { before with journal := events ++ before.journal }

theorem Notes.refl (world : World σ) : world.Notes world := ⟨[], rfl⟩

theorem notes_record (world : World σ) (m : ModuleId) (event : Event) :
    world.Notes (world.record m event) := by
  unfold record
  split
  · exact ⟨[event], rfl⟩
  · exact .refl world

theorem Notes.trans {first middle last : World σ} (early : first.Notes middle)
    (late : middle.Notes last) : first.Notes last := by
  obtain ⟨before, rfl⟩ := early
  obtain ⟨after, rfl⟩ := late
  exact ⟨after ++ before, by rw [List.append_assoc]⟩

end World

theorem Module.reading_of_held {module : Module σ} (held : module.held = true) (name : String) :
    module.reading name = .ok ((module.peek name).getD .undefined) := by
  cases settled : module.peek name with
  | some value => exact reading_of_peek settled
  | none =>
    rw [reading_of_missing settled]
    simp [unsettled, state, held, State.isFinal]

namespace Demand

variable {world : World σ} {target : Target} {name : String}

theorem deliver_of_held (how : Reading) (remote : target.remote = .ok name)
    (held : (world.module target.source).held = true) :
    deliver how target world (reading target world) =
      (.answer (.returned (((world.module target.source).peek name).getD .undefined)), world) := by
  rw [reading, remote, Except.bind, Module.reading_of_held held]
  rfl

theorem ends_read_of_held (how : Reading) (remote : target.remote = .ok name)
    (held : (world.module target.source).held = true) :
    ∃ later, (Control.demand (.read how target)).Ends world
        (.returned (((world.module target.source).peek name).getD .undefined)) later ∧
      world.Notes later := by
  rcases awaited?_read how target world with unawaited | awaited
  · refine ⟨world, fun stack => ?_, .refl world⟩
    have reach := reaches_of_unawaited unawaited stack
    rwa [deliver_of_held how remote held] at reach
  · let refused := world.record target.source (.refused target.source)
    refine ⟨refused, fun stack => ?_, world.notes_record target.source _⟩
    have same : refused.module target.source = world.module target.source := World.module_record ..
    have still : (Demand.read how target).awaited? refused = some target.source := by
      simpa only [awaited?, same] using awaited
    have asked : Machine.Reaches _ (Machine.join stack (giveUp how target refused)) :=
      reaches_of_goes awaited (.refused held) stack
    rwa [giveUp_of_awaited still, deliver_of_held how remote (by rwa [same]), same] at asked

theorem ends_finish_of_held {m : ModuleId} (held : (world.module m).held = true) :
    ∃ later, (Control.demand (.finish m)).Ends world .unit later ∧ world.Notes later := by
  have refused := world.notes_record m (.refused m)
  have deferred := (world.record m (.refused m)).notes_record m (.deferred m)
  exact ⟨_, reaches_of_goes rfl (.refused held), refused.trans deferred⟩

end Demand

/-- Wherever a run has come to, and whatever the module declares or awaits: reading a name of a module
that is inside a step or inside its factory gives the name's value, or undefined when there is none;
finishing the module succeeds; and neither of them changes anything. -/
theorem reentrant_reads_harmless {machine : Machine σ} {turns : List (Turn σ)} {m : ModuleId}
    (run : Run allowed machine turns) (inside : m ∈ owners machine.stack) :
    (∀ how target name, target.source = m → target.remote = .ok name →
      ∃ later, (Control.demand (.read how target)).Ends machine.world
          (.returned (((machine.world.module m).peek name).getD .undefined)) later ∧
        machine.world.Notes later) ∧
    ∃ later, (Control.demand (.finish m)).Ends machine.world .unit later ∧
      machine.world.Notes later := by
  rw [← owners_holding] at inside
  have held := ((run.orderly.held m).mp inside).2
  refine ⟨?_, Demand.ends_finish_of_held held⟩
  rintro how target name rfl remote
  exact Demand.ends_read_of_held how remote held

/-- A strict module takes its name from another one, which takes its own from the first. -/
def mutualReads : Program Unit :=
  Code.program do
    let first ← Code.create [.named "x"] { Config.standard with policy := .strict }
    let second ← Code.create [.named "y"] .standard
    let _ ← Code.executeStatements first Code.unit
      [fun m => do Code.settle m "x" (← Code.get second "y")]
    let _ ← Code.executeStatements second Code.unit
      [fun m => do Code.settle m "y" (← Code.resolve first "x")]
    Code.get first "x"

theorem reentrant_reads_harmless_of_mutualReads :
    let machine := (Machine.start mutualReads (.empty .standard ())).after 14
    owners machine.stack = [1, 0] ∧ (machine.world.module 0).config.policy = .strict ∧
      (∃ later, (Control.demand (.read .resolve (.named 0 "x"))).Ends machine.world .unit later ∧
        machine.world.Notes later) ∧
      ∃ later, (Control.demand (.finish 0)).Ends machine.world .unit later ∧
        machine.world.Notes later := by
  intro machine
  have run : Run (fun _ => True) machine _ := (Run.start .standard () trivial).after 14
  have stack : owners machine.stack = [1, 0] := rfl
  have inside : 0 ∈ owners machine.stack := by
    rw [stack]
    decide
  obtain ⟨reads, finishes⟩ := reentrant_reads_harmless run inside
  exact ⟨stack, rfl, reads .resolve (.named 0 "x") "x" rfl rfl, finishes⟩

end LiveBindings
