import LiveBindings.Proofs.Failure
import LiveBindings.Proofs.Reentry

namespace LiveBindings

open Machine

variable {σ : Type} {allowed : Program σ → Prop}

theorem World.Notes.module_eq {before after : World σ} (notes : before.Notes after) (m : ModuleId) :
    after.module m = before.module m := by
  obtain ⟨events, rfl⟩ := notes
  rfl

/-- The body failed in between, in a step after which the name is not awaited any more. -/
def Module.Overtaken (before after : Module σ) (name : String) : Prop :=
  before.state ≠ .failed ∧ after.state = .failed ∧ after.lacks name = false

theorem Module.of_reading_ne_failed (module : Module σ) (name label : String) (cause : Fault) :
    Outcome.of (module.reading name) ≠ .failed (.failed label cause) := by
  intro same
  rcases module.of_reading name with ⟨_, gives⟩ | ⟨_, gives⟩
  · cases gives.symm.trans same
  · cases gives.symm.trans same

namespace World

variable {world : World σ} {m : ModuleId} {stack : List (Frame σ)}

theorem broken_of_state (orderly : Orderly world (holding stack))
    (free : (world.module m).held = false) (failed : (world.module m).state = .failed) :
    ∃ cause, world.Broken m cause := by
  rw [Module.state_of_free free] at failed
  have slot := slot_of_readiness orderly free
  rw [slot] at failed
  cases ready : (world.module m).slot.readiness with
  | failed cause => exact ⟨cause, free, by rw [slot, ready]; rfl⟩
  | ready body | idle | exhausted =>
    rw [ready] at failed
    cases failed

/-- A module without a body, or whose body ended, does not go on. -/
theorem goes_of_still (orderly : Orderly world (holding stack))
    (free : (world.module m).held = false)
    (still : (world.module m).state = .pending ∨ (world.module m).state = .completed) :
    world.Goes m .idle world ∨ world.Goes m .exhausted world := by
  rw [Module.state_of_free free, slot_of_readiness orderly free] at still
  cases ready : (world.module m).slot.readiness with
  | idle => exact .inl (.idle free ready)
  | exhausted => exact .inr (.exhausted free ready)
  | ready body | failed cause =>
    rw [ready] at still
    rcases still with pending | completed
    · cases pending
    · cases completed

end World

namespace Demand

variable {world later : World σ} {target : Target} {name : String} {outcome : Outcome}
  {stack : List (Frame σ)}

/-- A read of a module that rests gives what there is. -/
theorem ends_of_rests (orderly : Orderly world (holding stack))
    (free : (world.module target.source).held = false) (remote : target.remote = .ok name)
    (rests : (world.module target.source).Rests name) :
    (Control.demand (.read .resolve target)).Ends world
      (.of ((world.module target.source).reading name)) world := by
  have gives : reading target world = (world.module target.source).reading name := by
    rw [reading, remote]
    rfl
  rw [← gives]
  rcases awaited?_read .resolve target world with unawaited | awaited
  · exact ends_of_unawaited unawaited
  · have given (stack : List (Frame σ)) : join stack (giveUp .resolve target world) =
        ⟨.answer (.of (reading target world)), stack, world⟩ := by
      rw [giveUp_of_awaited awaited, deliver_resolve]
      rfl
    intro stack
    rw [← given]
    rcases World.goes_of_still orderly free (rests (lacks_of_awaited remote awaited)) with goes | goes
    · exact reaches_of_goes awaited goes stack
    · exact reaches_of_goes awaited goes stack

theorem exists_again_of_held (remote : target.remote = .ok name)
    (held : (world.module target.source).held = true)
    (ends : (Control.demand (.read .resolve target)).Ends world outcome later) :
    (∃ last, (Control.demand (.read .resolve target)).Ends later outcome last ∧ later.Notes last) ∧
      (later.module target.source).held = true := by
  obtain ⟨first, reads, notes⟩ := ends_read_of_held .resolve remote held
  obtain ⟨rfl, rfl⟩ := reads.unique ends
  have same := notes.module_eq target.source
  obtain ⟨last, again, noted⟩ := ends_read_of_held .resolve remote (by rwa [same])
  rw [same] at again
  exact ⟨⟨last, again, noted⟩, by rwa [same]⟩

/-- A module that had failed before a read, and not given the name, is left as it was. -/
theorem eq_of_failed (orderly : Orderly world (holding stack))
    (free : (world.module target.source).held = false)
    (failed : (world.module target.source).state = .failed) (remote : target.remote = .ok name)
    (lacks : (world.module target.source).lacks name = true)
    (ends : (Control.demand (.read .resolve target)).Ends world outcome later) : later = world := by
  obtain ⟨cause, broken⟩ := World.broken_of_state orderly free failed
  exact ((broken.ends_read remote lacks).unique ends).2

end Demand

/-- How a second read of a name relates to the first one: the worlds around the first read, its outcome,
the outcome of the second one, and the world that this leaves. -/
structure World.ReadsAgain (before after : World σ) (m : ModuleId) (name : String)
    (outcome again : Outcome) (last : World σ) : Prop where
  notes : after.Notes last
  same : again = outcome ↔ ¬ (before.module m).Overtaken (after.module m) name
  overtaken : (before.module m).Overtaken (after.module m) name →
    (∃ cause, (after.module m).slot.failure = some cause ∧
      outcome = .failed (.failed (before.label m) cause)) ∧
    again = .of ((after.module m).reading name)

theorem World.ReadsAgain.of_eq {before after last : World σ} {m : ModuleId} {name : String}
    {outcome : Outcome} (notes : after.Notes last)
    (standing : ¬ (before.module m).Overtaken (after.module m) name) :
    before.ReadsAgain after m name outcome outcome last :=
  ⟨notes, iff_of_true rfl standing, fun overtaken => absurd overtaken standing⟩

/-- A read that follows another one of the same name ends, and touches nothing. It has the outcome of
the first one, unless the body failed during the first one in a step after which the name was not
awaited any more; then the first one hands over the fault, and the second one what there is. -/
theorem read_again {machine : Machine σ} {turns : List (Turn σ)} {target : Target} {name : String}
    {outcome : Outcome} {later : World σ} (run : Run allowed machine turns)
    (remote : target.remote = .ok name)
    (ends : (Control.demand (.read .resolve target)).Ends machine.world outcome later)
    (calm : outcome.Calm) :
    ∃ again last, (Control.demand (.read .resolve target)).Ends later again last ∧
      machine.world.ReadsAgain later target.source name outcome again last := by
  cases held : (machine.world.module target.source).held with
  | true =>
    obtain ⟨⟨last, again, notes⟩, still⟩ := Demand.exists_again_of_held remote held ends
    have running : (later.module target.source).state ≠ .failed := by simp [Module.state, still]
    exact ⟨outcome, last, again, .of_eq notes fun overtaken => running overtaken.2.1⟩
  | false =>
    have made := World.mem_of_free held
    have label := (ends []).grows.label made
    have orderly := (ends machine.stack).orderly run.orderly
    obtain ⟨free, reads⟩ := Demand.exists_reads ends calm remote run.orderly held
    cases reads with
    | stopped went rests =>
      have again := Demand.ends_of_rests orderly free remote rests
      refine ⟨_, later, again, .of_eq (.refl later) fun overtaken => ?_⟩
      exact went.not_breaks rests (.inl ⟨overtaken.1, overtaken.2.1⟩)
    | @broken cause breaks slot =>
      have broken : later.Broken target.source cause := ⟨free, slot⟩
      cases lacks : (later.module target.source).lacks name with
      | true =>
        have again := broken.ends_read remote lacks
        rw [label] at again
        have awaited : ¬ (machine.world.module target.source).Overtaken
            (later.module target.source) name := by
          rintro ⟨_, _, gone⟩
          cases lacks.symm.trans gone
        exact ⟨_, later, again, .of_eq (.refl later) awaited⟩
      | false =>
        have rests : (later.module target.source).Rests name := fun awaited => by
          cases lacks.symm.trans awaited
        have overtaken : (machine.world.module target.source).Overtaken
            (later.module target.source) name := by
          refine ⟨fun failed => ?_, broken.state, lacks⟩
          rcases breaks with ⟨standing, _⟩ | ⟨_, lacked⟩
          · exact standing failed
          · have same := Demand.eq_of_failed run.orderly held failed remote lacked ends
            rw [same] at lacks
            cases lacks.symm.trans lacked
        refine ⟨_, later, Demand.ends_of_rests orderly free remote rests, .refl later, ?_, ?_⟩
        · exact iff_of_false (Module.of_reading_ne_failed _ _ _ _) fun holds => holds overtaken
        · exact fun _ => ⟨⟨cause, by rw [slot], rfl⟩, rfl⟩

/-- A module settles one name, and then another one in a step that fails. -/
def hasty : Program Unit :=
  Code.program do
    let m ← Code.create [.named "x", .named "y"] .standard
    Code.executeStatements m Code.unit
      [fun m => Code.settle m "y" .null,
        fun m => do
          let _ ← Code.settle m "x" .null
          Code.fail (.body "late")]

def hastyMade : Machine Unit := (Machine.start hasty (.empty .standard ())).after 5

theorem read_again_of_hasty :
    ∃ later : World Unit, (later.module 0).steps = 1 ∧
      ∃ again last, (Control.demand (.read .resolve (.named 0 "y"))).Ends later again last ∧
        hastyMade.world.ReadsAgain later 0 "y" (.returned .null) again last := by
  have run : Run (fun _ => True) hastyMade _ := (Run.start .standard () trivial).after 5
  have ended : ((⟨.demand (.read .resolve (.named 0 "y")), [], hastyMade.world⟩ :
      Machine Unit).after 4).outcome? = some (.returned .null) := rfl
  have ends := Control.ends_iff.mpr (Machine.run?_of_after ended)
  exact ⟨_, rfl, read_again run rfl ends fun _ => nofun⟩

/-- Two reads of a name in a row can differ: the first one of them runs the step that settles the
name and fails. -/
theorem reads_differ : ¬ ∀ (machine : Machine Unit) (turns : List (Turn Unit)) (m : ModuleId)
    (name : String) (outcome again : Outcome) (later last : World Unit),
    Run (fun _ => True) machine turns →
      (Control.demand (.read .resolve (.named m name))).Ends machine.world outcome later →
      outcome.Calm →
      (Control.demand (.read .resolve (.named m name))).Ends later again last →
      again = outcome ∧ last.modules = later.modules := by
  intro idempotent
  have run : Run (fun _ => True) hastyMade _ := (Run.start .standard () trivial).after 5
  have failed : ((⟨.demand (.read .resolve (.named 0 "x")), [], hastyMade.world⟩ :
      Machine Unit).after 9).outcome? =
      some (.failed (.failed (hastyMade.world.label 0) (.body "late"))) := rfl
  have ends := Control.ends_iff.mpr (Machine.run?_of_after failed)
  have settled : ((⟨.demand (.read .resolve (.named 0 "x")), [],
      ((⟨.demand (.read .resolve (.named 0 "x")), [], hastyMade.world⟩ :
        Machine Unit).after 9).world⟩ : Machine Unit).after 1).outcome? = some (.returned .null) := rfl
  have again := Control.ends_iff.mpr (Machine.run?_of_after settled)
  cases (idempotent _ _ 0 "x" _ _ _ _ run ends (fun _ => nofun) again).1

end LiveBindings
