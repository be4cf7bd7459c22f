import LiveBindings.Proofs.Advance
import LiveBindings.Proofs.Reading

namespace LiveBindings

open Machine

variable {σ : Type} {allowed : Program σ → Prop}

namespace Module

variable {before after : Module σ} {name : String} {outcome : Outcome}

/-- The body failed in between, or it had failed before and the name was still awaited. -/
def Breaks (before after : Module σ) (name : String) : Prop :=
  before.state ≠ .failed ∧ after.state = .failed ∨ before.state = .failed ∧ before.lacks name = true

/-- The module is strict, and its body has ended without the name. -/
def Misses (after : Module σ) (name : String) : Prop :=
  after.config.policy = .strict ∧ after.peek name = none ∧ after.state.isFinal = true

/-- How the outcome of a read depends on the module before and after it. -/
structure Resolves (before after : Module σ) (name : String) (outcome : Outcome) : Prop where
  failed : (∃ cause, after.slot.failure = some cause ∧
    outcome = .failed (.failed before.label cause)) ↔ Breaks before after name
  missing : outcome = .failed (.exportNotFound before.label name) ↔
    ¬ Breaks before after name ∧ after.Misses name
  otherwise : ¬ Breaks before after name → ¬ after.Misses name →
    outcome = .returned ((after.peek name).getD .undefined)
  suspended : after.peek name = none → after.state = .suspended →
    after.declares name = false ∧ after.pendingWildcards = 0
  declared : before.declares name = true → before.state ≠ .pending →
    (after.peek name).isSome = true ∨ after.state.isFinal = true

/-- The module made no step, or it made steps that did not fail. -/
def Progresses (before after : Module σ) : Prop :=
  after = before ∨
    before.state = .suspended ∧ (after.state = .suspended ∨ after.state = .completed)

/-- The name is not awaited any more, or there is no body to make a step. -/
def Rests (after : Module σ) (name : String) : Prop :=
  after.lacks name = true → after.state = .pending ∨ after.state = .completed

inductive Reads (before after : Module σ) (name : String) : Outcome → Prop
  | broken {cause} : Breaks before after name → after.slot = ⟨none, .failed, some cause⟩ →
      Reads before after name (.failed (.failed before.label cause))
  | stopped : before.Progresses after → after.Rests name →
      Reads before after name (.of (after.reading name))

theorem reading_of_misses (misses : after.Misses name) :
    after.reading name = .error (.exportNotFound after.label name) := by
  obtain ⟨strict, missing, final⟩ := misses
  rw [reading_of_missing missing]
  simp [unsettled, strict, final]

theorem reading_of_not_misses (found : ¬ after.Misses name) :
    after.reading name = .ok ((after.peek name).getD .undefined) := by
  cases settled : after.peek name with
  | some value => exact reading_of_peek settled
  | none =>
    have lenient : ¬ (after.config.policy = .strict ∧ after.state.isFinal = true) :=
      fun ⟨strict, final⟩ => found ⟨strict, settled, final⟩
    rw [reading_of_missing settled]
    simpa [unsettled] using lenient

theorem of_reading (after : Module σ) (name : String) :
    after.Misses name ∧
        Outcome.of (after.reading name) = .failed (.exportNotFound after.label name) ∨
      ¬ after.Misses name ∧
        Outcome.of (after.reading name) = .returned ((after.peek name).getD .undefined) := by
  by_cases misses : after.Misses name
  · rw [reading_of_misses misses]
    exact .inl ⟨misses, rfl⟩
  · rw [reading_of_not_misses misses]
    exact .inr ⟨misses, rfl⟩

/-- A body that can go on was left at a name that is not awaited. -/
theorem Rests.suspended (rests : after.Rests name) (missing : after.peek name = none)
    (waits : after.state = .suspended) :
    after.declares name = false ∧ after.pendingWildcards = 0 := by
  have unawaited : after.awaits name = false := by
    refine Bool.not_eq_true _ ▸ fun awaited => ?_
    rcases rests (by simp [lacks, missing, awaited]) with pending | completed
    · cases waits.symm.trans pending
    · cases waits.symm.trans completed
  simpa [awaits] using unawaited

theorem Rests.declared (rests : after.Rests name) (declared : after.declares name = true)
    (attached : after.state ≠ .pending) :
    (after.peek name).isSome = true ∨ after.state.isFinal = true := by
  cases settled : after.peek name with
  | some value => exact .inl rfl
  | none =>
    rcases rests (by simp [lacks, settled, awaits, declared]) with pending | completed
    · exact absurd pending attached
    · rw [completed]
      exact .inr rfl

theorem Progresses.not_breaks (went : before.Progresses after) (rests : after.Rests name) :
    ¬ Breaks before after name := by
  rintro (⟨notFailed, failed⟩ | ⟨failed, lacks⟩)
  · rcases went with rfl | ⟨_, waits | completed⟩
    · exact notFailed failed
    · cases waits.symm.trans failed
    · cases completed.symm.trans failed
  · rcases went with rfl | ⟨waits, _⟩
    · rcases rests lacks with pending | completed
      · cases pending.symm.trans failed
      · cases completed.symm.trans failed
    · cases waits.symm.trans failed

theorem Progresses.breaks {middle : Module σ} (went : before.Progresses middle)
    (lacks : middle.lacks name = true) (failed : after.state = .failed) : Breaks before after name := by
  by_cases already : before.state = .failed
  · rcases went with rfl | ⟨waits, _⟩
    · exact .inr ⟨already, lacks⟩
    · cases waits.symm.trans already
  · exact .inl ⟨already, failed⟩

theorem Progresses.attached (went : before.Progresses after) (attached : before.state ≠ .pending) :
    after.state ≠ .pending := by
  intro pending
  rcases went with rfl | ⟨_, waits | completed⟩
  · exact attached pending
  · cases waits.symm.trans pending
  · cases completed.symm.trans pending

theorem Reads.resolves (reads : Reads before after name outcome) (grows : before.Grows after)
    (free : after.held = false) : before.Resolves after name outcome := by
  cases reads with
  | @broken cause breaks slot =>
    have failed : after.state = .failed := by rw [state_of_free free, slot]
    refine ⟨iff_of_true ⟨cause, by rw [slot], rfl⟩ breaks,
      iff_of_false nofun fun ⟨holds, _⟩ => holds breaks,
      fun holds => absurd breaks holds, fun _ waits => ?_, fun _ _ => .inr ?_⟩
    · cases waits.symm.trans failed
    · rw [failed]
      rfl
  | stopped went rests =>
    have holds := went.not_breaks rests
    have label : after.label = before.label := congrArg Config.shownLabel grows.config
    have answers := after.of_reading name
    rw [label] at answers
    refine ⟨iff_of_false ?_ holds, ?_, fun _ found => ?_, rests.suspended, fun declared given =>
      rests.declared (grows.declares name declared) (went.attached given)⟩
    · rintro ⟨cause, _, same⟩
      rcases answers with ⟨_, gives⟩ | ⟨_, gives⟩
      · cases same.symm.trans gives
      · cases same.symm.trans gives
    · rcases answers with ⟨misses, gives⟩ | ⟨found, gives⟩
      · exact iff_of_true gives ⟨holds, misses⟩
      · rw [gives]
        exact iff_of_false nofun fun ⟨_, misses⟩ => found misses
    · rcases answers with ⟨misses, _⟩ | ⟨_, gives⟩
      · exact absurd misses found
      · exact gives

end Module

namespace Demand

variable {world later : World σ} {target : Target} {name : String} {outcome : Outcome}
  {stack : List (Frame σ)}

theorem Steps.progresses {demand : Demand} {m : ModuleId} (steps : demand.Steps m world later)
    (orderly : Orderly world (holding stack)) (free : (world.module m).held = false) :
    (world.module m).Progresses (later.module m) := by
  have freed := steps.free orderly free
  unfold Module.Progresses
  rw [Module.state_of_free free, Module.state_of_free freed]
  rcases steps.states orderly with rfl | went
  · exact .inl rfl
  · exact .inr went

theorem eq_of_ends_giveUp
    (awaited : (Demand.read .resolve target).awaited? world = some target.source)
    (ends : (giveUp .resolve target world).1.Ends (giveUp .resolve target world).2 outcome later) :
    outcome = .of (reading target world) ∧ later = world := by
  rw [giveUp_of_awaited awaited, deliver_resolve] at ends
  exact Control.ends_answer.mp ends

/-- A read that does not wait ends at once. -/
theorem ends_of_unawaited (unawaited : (Demand.read .resolve target).awaited? world = none) :
    (Control.demand (.read .resolve target)).Ends world (.of (reading target world)) world := by
  intro stack
  have reach := reaches_of_unawaited unawaited stack
  rwa [deliver_resolve] at reach

/-- A name that has a value is read at once. -/
theorem step_read_of_settled {value : Value} (how : Reading) (remote : target.remote = .ok name)
    (settled : (world.module target.source).peek name = some value) (stack : List (Frame σ)) :
    step ⟨.demand (.read how target), stack, world⟩ = ⟨.answer (.returned value), stack, world⟩ := by
  have unawaited : (Demand.read how target).awaited? world = none := by
    rw [awaited?_of_remote how remote]
    simp [Module.lacks, settled]
  have gives : reading target world = .ok value := by
    rw [reading, remote]
    exact Module.reading_of_peek settled
  rw [step_of_unawaited unawaited, proceed_read, gives]
  rfl

theorem ends_read_of_settled {value : Value} (how : Reading) (remote : target.remote = .ok name)
    (settled : (world.module target.source).peek name = some value) :
    (Control.demand (.read how target)).Ends world (.returned value) world := fun stack =>
  .of_step (step_read_of_settled how remote settled stack)

theorem exists_reads (ends : (Control.demand (.read .resolve target)).Ends world outcome later)
    (calm : outcome.Calm) (remote : target.remote = .ok name)
    (orderly : Orderly world (holding stack))
    (free : (world.module target.source).held = false) :
    (later.module target.source).held = false ∧
      (world.module target.source).Reads (later.module target.source) name outcome := by
  obtain ⟨middle, result, steps, halts, ends⟩ :=
    exists_halts (awaited?_read .resolve target) ends calm
  have ordered := steps.orderly orderly
  have freed := steps.free orderly free
  have went := steps.progresses orderly free
  have stops (rests : (middle.module target.source).Rests name) :
      (middle.module target.source).held = false ∧
        (world.module target.source).Reads (middle.module target.source) name
          (.of (reading target middle)) := by
    rw [reading, remote]
    exact ⟨freed, .stopped went rests⟩
  -- The read has ended because it waits no more, or because asking the module made no step.
  cases halts with
  | unawaited unawaited =>
    rw [proceed_read, deliver_resolve] at ends
    obtain ⟨rfl, rfl⟩ := Control.ends_answer.mp ends
    refine stops fun lacks => ?_
    rw [lacks_of_unawaited remote unawaited] at lacks
    cases lacks
  | @still progress last awaited stays goes =>
    cases progress with
    | stepped => exact absurd rfl stays
    | busy =>
      obtain ⟨held⟩ := goes
      cases held.symm.trans freed
    | idle =>
      obtain ⟨rfl, slot⟩ := goes.of_idle ordered
      obtain ⟨rfl, rfl⟩ := eq_of_ends_giveUp awaited ends
      refine stops fun _ => .inl ?_
      rw [Module.state_of_free freed, slot]
      rfl
    | exhausted =>
      obtain ⟨rfl, slot⟩ := goes.of_exhausted ordered
      obtain ⟨rfl, rfl⟩ := eq_of_ends_giveUp awaited ends
      refine stops fun _ => .inr ?_
      rw [Module.state_of_free freed, slot]
    | failed fault =>
      change (deliver .resolve target last _).1.Ends (deliver .resolve target last _).2 _ _ at ends
      rw [deliver_resolve] at ends
      obtain ⟨rfl, rfl⟩ := Control.ends_answer.mp ends
      obtain ⟨cause, slot, rfl, _⟩ := goes.of_failed ordered
      have free' := goes.free ordered freed
      have failed : (later.module target.source).state = .failed := by
        rw [Module.state_of_free free', slot]
      rw [(steps.reaches []).grows.label (World.mem_of_free free)]
      exact ⟨free', .broken (went.breaks (lacks_of_awaited remote awaited) failed) slot⟩

end Demand

/-- The answer of a read that ends, for a module that is neither inside a step nor inside its
factory, in terms of the module before and after the read. -/
theorem resolve_outcome {machine : Machine σ} {turns : List (Turn σ)} {target : Target}
    {name : String} {outcome : Outcome} {later : World σ} (run : Run allowed machine turns)
    (remote : target.remote = .ok name) (made : target.source ∈ machine.world)
    (outside : target.source ∉ owners machine.stack)
    (ends : (Control.demand (.read .resolve target)).Ends machine.world outcome later)
    (calm : outcome.Calm) :
    (machine.world.module target.source).Resolves (later.module target.source) name outcome := by
  rw [← owners_holding] at outside
  have free := run.orderly.free made outside
  obtain ⟨freed, reads⟩ := Demand.exists_reads ends calm remote run.orderly free
  exact reads.resolves ((ends []).grows.module target.source made) freed

/-- A strict module never exports one of its names. -/
def forgetful : Program Unit :=
  Code.program do
    let m ← Code.create [.named "x", .named "y"] { Config.standard with policy := .strict }
    Code.executeStatements m Code.unit [fun m => Code.settle m "x" .null]

def forgetfulMade : Machine Unit := (Machine.start forgetful (.empty .standard ())).after 5

theorem resolve_outcome_of_forgetful :
    ∃ later : World Unit,
      (forgetfulMade.world.module 0).state = .suspended ∧
      (later.module 0).state = .completed ∧ (later.module 0).steps = 2 ∧
      (forgetfulMade.world.module 0).Resolves (later.module 0) "y"
        (.failed (.exportNotFound (forgetfulMade.world.label 0) "y")) := by
  have run : Run (fun _ => True) forgetfulMade _ := (Run.start .standard () trivial).after 5
  have made : (Target.named 0 "y").source ∈ forgetfulMade.world := by
    show 0 < forgetfulMade.world.modules.length
    decide
  have outside : (Target.named 0 "y").source ∉ owners forgetfulMade.stack := nofun
  have ended : ((⟨.demand (.read .resolve (.named 0 "y")), [], forgetfulMade.world⟩ :
      Machine Unit).after 6).outcome? =
      some (.failed (.exportNotFound (forgetfulMade.world.label 0) "y")) := rfl
  have ends := Control.ends_iff.mpr (Machine.run?_of_after ended)
  exact ⟨_, rfl, rfl, rfl, resolve_outcome run rfl made outside ends fun _ => nofun⟩

end LiveBindings
