import LiveBindings.Proofs.Absorption
import LiveBindings.Proofs.Resolution

namespace LiveBindings

open Machine

variable {σ : Type} {allowed : Program σ → Prop}

namespace Module

variable {before after module : Module σ} {name : String}

/-- A declared name that is unsettled later on is awaited until then. -/
theorem Grows.lacks (grows : before.Grows after) (declared : before.declares name = true)
    (missing : after.peek name = none) : before.lacks name = true := by
  have unsettled : before.peek name = none := by
    cases settled : before.peek name with
    | none => rfl
    | some value =>
      have still := grows.settles name (by rw [settled]; rfl)
      rw [missing] at still
      cases still
  simp [Module.lacks, Module.awaits, unsettled, declared]

/-- What a read gives of an unsettled name when the body has not failed. -/
theorem of_reading_of_missing (missing : module.peek name = none) (sound : module.state ≠ .failed) :
    Outcome.of (module.reading name) =
      if module.config.policy = .strict ∧ module.state = .completed then
        .failed (.exportNotFound module.label name)
      else .unit := by
  have final : module.state.isFinal = true ↔ module.state = .completed := by
    generalize module.state = state at sound
    cases state <;> simp_all [State.isFinal]
  rcases module.of_reading name with ⟨⟨strict, _, ended⟩, gives⟩ | ⟨found, gives⟩
  · rw [if_pos ⟨strict, final.mp ended⟩, gives]
  · rw [if_neg fun ⟨strict, ended⟩ => found ⟨strict, missing, final.mpr ended⟩, gives, missing]
    rfl

end Module

namespace Demand

variable {world middle final : World σ} {target : Target} {name : String} {outcome : Outcome}

theorem awaited?_of_missing (how : Reading) (remote : target.remote = .ok name)
    (grows : world.Grows final) (made : target.source ∈ world)
    (declared : (world.module target.source).declares name = true)
    (missing : (final.module target.source).peek name = none) :
    (Demand.read how target).awaited? world = some target.source := by
  rw [awaited?_of_remote how remote,
    if_pos ((grows.module target.source made).lacks declared missing)]

/-- The steps of a finish are steps of a read, if they leave the name unsettled. -/
theorem Steps.read_of_finish
    (steps : (Demand.finish target.source).Steps target.source world middle)
    (remote : target.remote = .ok name) (made : target.source ∈ world)
    (declared : (world.module target.source).declares name = true)
    (missing : (middle.module target.source).peek name = none) :
    (Demand.read .resolve target).Steps target.source world middle := by
  induction steps with
  | refl world => exact .refl world
  | @step world next middle awaited goes steps ih =>
    have grows := goes.grows.trans (steps.reaches []).grows
    have still := (goes.grows.module target.source made).declares name declared
    exact .step (awaited?_of_missing .resolve remote grows made declared missing) goes
      (ih (goes.grows.mem made) still missing)

/-- A read of a missing name comes to its end where the body makes no step and has not failed. -/
theorem ends_of_still {progress : Progress} (remote : target.remote = .ok name)
    (awaited : (Demand.read .resolve target).awaited? world = some target.source)
    (goes : world.Goes target.source progress world)
    (gives : (Demand.read .resolve target).react world progress = giveUp .resolve target world)
    (sound : (world.module target.source).state ≠ .failed) :
    (Control.demand (.read .resolve target)).Ends world
      (if (world.module target.source).config.policy = .strict ∧
          (world.module target.source).state = .completed then
        .failed (.exportNotFound (world.label target.source) name)
      else .unit) world := by
  intro stack
  have missing := Module.peek_of_lacks (lacks_of_awaited remote awaited)
  have asked := reaches_of_goes awaited goes stack
  rw [gives, giveUp_of_awaited awaited, deliver_resolve, reading, remote] at asked
  rw [World.label, ← Module.of_reading_of_missing missing sound]
  exact asked

/-- What a read of a name answers that a finish leaves unsettled: the fault of the finish, if it has
one, and what the module has for a missing name otherwise. -/
def Forgoes (final : World σ) (m : ModuleId) (name : String) (outcome answer : Outcome) : Prop :=
  (outcome = .unit ∧
    answer = if (final.module m).config.policy = .strict ∧ (final.module m).state = .completed then
      .failed (.exportNotFound (final.label m) name) else .unit) ∨
  ∃ fault, outcome = .failed fault ∧ answer = .failed fault

theorem Finishes.exists_read (finishes : Finishes world target.source outcome final)
    (calm : outcome.Calm) (remote : target.remote = .ok name)
    (declared : (world.module target.source).declares name = true)
    (missing : (final.module target.source).peek name = none) :
    ∃ answer, (Control.demand (.read .resolve target)).Ends world answer final ∧
      Forgoes final target.source name outcome answer := by
  obtain ⟨orderly, free, ends⟩ := finishes
  have made := World.mem_of_free free
  obtain ⟨middle, result, steps, halts, ends⟩ := exists_halts (fun _ => .inr rfl) ends calm
  have ordered := steps.orderly orderly
  have freed := steps.free orderly free
  have grows := (steps.reaches []).grows
  have there := grows.mem made
  have still := (grows.module target.source made).declares name declared
  -- The read makes the steps of the finish, and asks the body once more where the finish does.
  have reads {last : World σ} {answer : Outcome} (later : middle.Grows final)
      (halted : (Control.demand (.read .resolve target)).Ends middle answer last) :
      (Control.demand (.read .resolve target)).Ends world answer last := by
    have unsettled := Module.peek_of_lacks ((later.module target.source there).lacks still missing)
    have steps := steps.read_of_finish remote made declared unsettled
    exact halted.of_reaches steps.reaches
  have rested {progress : Progress} (goes : middle.Goes target.source progress middle)
      (gives : (Demand.read .resolve target).react middle progress = giveUp .resolve target middle)
      (sound : (middle.module target.source).slot.state ≠ .failed)
      (unfailed : outcome = .unit ∧ final = middle) :
      ∃ answer, (Control.demand (.read .resolve target)).Ends world answer final ∧
        Forgoes final target.source name outcome answer := by
    obtain ⟨rfl, rfl⟩ := unfailed
    rw [← Module.state_of_free freed] at sound
    have waits := awaited?_of_missing .resolve remote goes.grows there still missing
    exact ⟨_, reads goes.grows (ends_of_still remote waits goes gives sound), .inl ⟨rfl, rfl⟩⟩
  cases halts.stops ordered freed with
  | unawaited none => cases none
  | idle _ goes slot =>
    exact rested goes rfl (by rw [slot]; exact nofun) (Control.ends_answer.mp ends)
  | exhausted _ goes slot =>
    exact rested goes rfl (by rw [slot]; exact nofun) (Control.ends_answer.mp ends)
  | failed _ goes =>
    obtain ⟨rfl, rfl⟩ := Control.ends_answer.mp ends
    have waits := awaited?_of_missing .resolve remote goes.grows there still missing
    exact ⟨_, reads goes.grows (reaches_of_goes waits goes), .inr ⟨_, rfl, rfl⟩⟩

end Demand

/-- Between operations, a read of a declared name which the body never settles does what finishing
the module does: it leaves the same world. It hands over the fault of the finish, if there is one;
otherwise the name is not found in a strict module whose body has ended, and undefined elsewhere. -/
theorem read_exhausts {machine : Machine σ} {turns : List (Turn σ)} {target : Target} {name : String}
    {limit : Nat} {outcome : Outcome} {final : World σ} (run : Run allowed machine turns)
    (idle : machine.stack = []) (made : target.source ∈ machine.world)
    (remote : target.remote = .ok name)
    (declared : (machine.world.module target.source).declares name = true)
    (finishes : (Machine.start (Code.finish target.source).program machine.world).run? limit =
      some (outcome, final))
    (calm : outcome.Calm) (missing : (final.module target.source).peek name = none) :
    ∃ answer, (∃ limit, (Machine.start (Code.read .resolve target).program machine.world).run? limit =
        some (answer, final)) ∧
      Demand.Forgoes final target.source name outcome answer := by
  have orderly := run.orderly
  rw [idle] at orderly
  have free := orderly.free made nofun
  have ends : (Control.demand (.finish target.source)).Ends machine.world outcome final :=
    Control.ends_demand.mp (Control.ends_iff.mpr ⟨limit, finishes⟩)
  obtain ⟨answer, reads, forgoes⟩ :=
    Demand.Finishes.exists_read ⟨orderly, free, ends⟩ calm remote declared missing
  exact ⟨answer, Control.ends_iff.mp (Control.ends_demand.mpr reads), forgoes⟩

/-- A strict module takes a name of another one, which it finishes later, and a hook of it writes there.
It never settles the second one of its own names. -/
def withholding : Program Unit :=
  Code.program do
    let source ← Code.create [.named "x"] .standard
    let m ← Code.create [.named "first", .named "never"] { Config.standard with policy := .strict }
    let _ ← Code.executeStatements source Code.unit [fun m => Code.settle m "x" .null]
    let _ ← Code.importer m fun _ => Code.settle source "x" (.boolean true)
    Code.executeStatements m Code.unit
      [fun m => do Code.settle m "first" (← Code.get source "x"), fun _ => Code.finish source]

def withheld : Machine Unit := (Machine.start withholding (.empty .standard ())).after 11

theorem read_exhausts_of_withheld :
    withheld.stack = [] ∧ (withheld.world.module 1).steps = 0 ∧
      ∃ final, (final.module 1).state = .completed ∧ (final.module 1).steps = 3 ∧
        (final.module 0).peek "x" = some (.boolean true) ∧
        ∃ limit, (Machine.start (Code.resolve 1 "never").program withheld.world).run? limit =
          some (.failed (.exportNotFound (final.label 1) "never"), final) := by
  have run : Run (fun _ => True) withheld _ := (Run.start .standard () trivial).after 11
  have made : (Target.named 1 "never").source ∈ withheld.world := by
    show 1 < withheld.world.modules.length
    decide
  have ended : ((Machine.start (Code.finish 1).program withheld.world).after 23).outcome? =
      some .unit := rfl
  obtain ⟨limit, finishes⟩ := Machine.run?_of_after ended
  obtain ⟨answer, reads, forgoes⟩ :=
    read_exhausts run rfl made rfl rfl finishes (fun _ => nofun) rfl
  rcases forgoes with ⟨_, rfl⟩ | ⟨fault, failed, _⟩
  · exact ⟨rfl, rfl, _, rfl, rfl, rfl, reads⟩
  · cases failed

end LiveBindings
