import LiveBindings.Proofs.Advance
import LiveBindings.Proofs.Reading

namespace LiveBindings

open Machine

variable {σ : Type} {allowed : Program σ → Prop}

theorem Outcome.calm_of (result : Except Fault Value) : (Outcome.of result).Calm := by
  cases result with
  | ok value => exact .returned value
  | error fault => exact fun _ => nofun

namespace Demand

variable {world final : World σ} {target : Target} {m : ModuleId} {outcome : Outcome}

/-- Between operations, finishing a module that nobody holds comes to the given end. -/
structure Finishes (world : World σ) (m : ModuleId) (outcome : Outcome) (final : World σ) :
    Prop where
  orderly : Orderly world (holding [])
  free : (world.module m).held = false
  ends : (Control.demand (.finish m)).Ends world outcome final

/-- A module that fails then fails again in the same way whenever it is asked to go on. -/
theorem finishes_of_failed {fault : Fault} (goes : world.Goes m (.failed fault) final)
    (orderly : Orderly world (holding [])) (free : (world.module m).held = false) :
    Finishes final m (.failed fault) final := by
  obtain ⟨cause, slot, rfl, _⟩ := goes.of_failed orderly
  have freed := goes.free orderly free
  have again : final.Goes m (.failed (.failed (final.label m) cause)) final :=
    .broken freed (by rw [slot]; rfl)
  rw [goes.grows.label (World.mem_of_free free)] at again
  exact ⟨goes.orderly orderly, freed, fun stack => reaches_of_goes rfl again stack⟩

/-- A read ends, and leaves a world in which a finish comes to the given end. -/
def Leads (world : World σ) (target : Target) (outcome : Outcome) (final : World σ) : Prop :=
  ∃ answer middle, answer.Calm ∧ (Control.demand (.read .resolve target)).Ends world answer middle ∧
    Finishes middle target.source outcome final

theorem Finishes.leads_of_unawaited (finishes : Finishes world target.source outcome final)
    (unawaited : (Demand.read .resolve target).awaited? world = none) :
    Leads world target outcome final := by
  have reach := reaches_of_unawaited unawaited
  rw [deliver_resolve] at reach
  exact ⟨_, world, Outcome.calm_of _, reach, finishes⟩

/-- Asking a body that makes no step, and keeps the world, leaves all to the finish. -/
theorem Finishes.leads_of_giveUp {progress : Progress}
    (finishes : Finishes world target.source outcome final)
    (awaited : (Demand.read .resolve target).awaited? world = some target.source)
    (goes : world.Goes target.source progress world)
    (gives : (Demand.read .resolve target).react world progress = giveUp .resolve target world) :
    Leads world target outcome final := by
  have asked := reaches_of_goes awaited goes
  rw [gives, giveUp, deliver_resolve] at asked
  exact ⟨_, world, Outcome.calm_of _, asked, finishes⟩

/-- A read has the body make the first of the steps that a finish would have it make. -/
theorem Steps.leads {middle : World σ} {result : Control σ × World σ}
    (steps : (Demand.finish target.source).Steps target.source world middle)
    (halts : (Demand.finish target.source).Halts target.source middle result)
    (ends : result.1.Ends result.2 outcome final) (orderly : Orderly world (holding []))
    (free : (world.module target.source).held = false) : Leads world target outcome final := by
  -- The read makes the same steps as the finish for as long as it waits, and when the body can go no
  -- further both have come to the same world.
  induction steps with
  | refl world =>
    have finishes : Finishes world _ outcome final :=
      ⟨orderly, free, (Steps.refl world).ends halts ends⟩
    rcases awaited?_read .resolve target world with unawaited | awaited
    · exact finishes.leads_of_unawaited unawaited
    · cases halts with
      | unawaited none => cases none
      | @still progress later _ stays goes =>
        cases progress with
        | stepped => exact absurd rfl stays
        | busy =>
          obtain ⟨held⟩ := goes
          cases held.symm.trans free
        | idle =>
          obtain ⟨rfl, _⟩ := goes.of_idle orderly
          exact finishes.leads_of_giveUp awaited goes rfl
        | exhausted =>
          obtain ⟨rfl, _⟩ := goes.of_exhausted orderly
          exact finishes.leads_of_giveUp awaited goes rfl
        | failed fault =>
          obtain ⟨rfl, rfl⟩ := Control.ends_answer.mp ends
          exact ⟨.failed fault, _, fun _ => nofun, reaches_of_goes awaited goes,
            finishes_of_failed goes orderly free⟩
  | @step world next middle awaited goes steps ih =>
    rcases awaited?_read .resolve target world with unawaited | waits
    · have finishes : Finishes world _ outcome final :=
        ⟨orderly, free, (Steps.step awaited goes steps).ends halts ends⟩
      exact finishes.leads_of_unawaited unawaited
    · obtain ⟨answer, between, calm, read, finishes⟩ :=
        ih halts (goes.orderly orderly) (goes.free orderly free)
      exact ⟨answer, between, calm, read.of_reaches (reaches_of_goes waits goes), finishes⟩

theorem Finishes.leads (finishes : Finishes world target.source outcome final)
    (calm : outcome.Calm) : Leads world target outcome final := by
  obtain ⟨middle, result, steps, halts, ends⟩ :=
    exists_halts (fun _ => .inr rfl) finishes.ends calm
  exact steps.leads halts ends finishes.orderly finishes.free

/-- Whatever is read before, the finish ends as it would have ended at once. -/
theorem Finishes.performs (finishes : Finishes world m outcome final) (calm : outcome.Calm)
    {targets : List Target} (about : ∀ target ∈ targets, target.source = m) :
    ∃ answers : List Outcome, (∀ answer ∈ answers, answer.Calm) ∧ ∀ outcomes later,
      Performs world
          (targets.map (fun target => (Code.read .resolve target).program) ++
            [(Code.finish m).program]) outcomes later ↔
        outcomes = answers ++ [outcome] ∧ later = final := by
  induction targets generalizing world with
  | nil =>
    refine ⟨[], fun _ => nofun, fun outcomes later => ?_⟩
    have ends : (Control.run (Code.finish m).program).Ends world outcome final :=
      Control.ends_demand.mpr finishes.ends
    rw [List.map_nil, List.nil_append, Performs.cons_iff ends]
    constructor
    · rintro ⟨_, rfl, ⟨⟩⟩
      exact ⟨rfl, rfl⟩
    · rintro ⟨rfl, rfl⟩
      exact ⟨[], rfl, .nil⟩
  | cons target rest ih =>
    obtain rfl := about target List.mem_cons_self
    obtain ⟨answer, middle, quiet, read, again⟩ := finishes.leads calm
    obtain ⟨answers, calms, performs⟩ :=
      ih again fun other member => about other (List.mem_cons_of_mem _ member)
    refine ⟨answer :: answers, List.forall_mem_cons.mpr ⟨quiet, calms⟩, fun outcomes later => ?_⟩
    have ends : (Control.run (Code.read .resolve target).program).Ends world answer middle :=
      Control.ends_demand.mpr read
    rw [List.map_cons, List.cons_append, Performs.cons_iff ends]
    simp only [performs]
    constructor
    · rintro ⟨_, rfl, rfl, rfl⟩
      exact ⟨rfl, rfl⟩
    · rintro ⟨rfl, rfl⟩
      exact ⟨_, rfl, rfl, rfl⟩

end Demand

/-- Reads of a module before a finish of it make no difference, whatever the module's body does to
others and wherever the reads stop: the reads do not panic, and the finish then ends as it ends
without them, with the same world. -/
theorem finish_absorbs_reads {machine : Machine σ} {turns : List (Turn σ)} {m : ModuleId}
    {limit : Nat} {outcome : Outcome} {final : World σ} (run : Run allowed machine turns)
    (idle : machine.stack = []) (made : m ∈ machine.world)
    (finishes : (Machine.start (Code.finish m).program machine.world).run? limit =
      some (outcome, final))
    (calm : outcome.Calm) (targets : List Target) (about : ∀ target ∈ targets, target.source = m) :
    ∃ answers : List Outcome, (∀ answer ∈ answers, answer.Calm) ∧ ∀ outcomes later,
      Performs machine.world
          (targets.map (fun target => (Code.read .resolve target).program) ++
            [(Code.finish m).program]) outcomes later ↔
        outcomes = answers ++ [outcome] ∧ later = final := by
  have orderly := run.orderly
  rw [idle] at orderly
  have free := orderly.free made nofun
  have ends : (Control.demand (.finish m)).Ends machine.world outcome final :=
    Control.ends_demand.mp (Control.ends_iff.mpr ⟨limit, finishes⟩)
  exact Demand.Finishes.performs ⟨orderly, free, ends⟩ calm about

/-- A module takes a name of another one, which it finishes later, and a hook of it writes there. -/
def relay : Program Unit :=
  Code.program do
    let source ← Code.create [.named "x"] .standard
    let relay ← Code.create [.named "first", .named "second"] .standard
    let _ ← Code.executeStatements source Code.unit [fun m => Code.settle m "x" .null]
    let _ ← Code.importer relay fun _ => Code.settle source "x" (.boolean true)
    Code.executeStatements relay Code.unit
      [fun m => do Code.settle m "first" (← Code.get source "x"),
        fun m => do
          let _ ← Code.finish source
          Code.settle m "second" (← Code.get m "first")]

def relayed : Machine Unit := (Machine.start relay (.empty .standard ())).after 11

theorem finish_absorbs_reads_of_relayed :
    relayed.stack = [] ∧ (relayed.world.module 1).steps = 0 ∧
      ∃ final, (final.module 1).slot.state = .completed ∧
        ∃ answers : List Outcome, (∀ answer ∈ answers, answer.Calm) ∧ ∀ outcomes later,
          Performs relayed.world
              ([.named 1 "first", .viewed ⟨1, .ofList [("here", "second")]⟩ "here",
                .named 1 "other"].map (fun target => (Code.read .resolve target).program) ++
                [(Code.finish 1).program]) outcomes later ↔
            outcomes = answers ++ [.unit] ∧ later = final := by
  have run : Run (fun _ => True) relayed _ := (Run.start .standard () trivial).after 11
  have made : 1 ∈ relayed.world := by
    show 1 < relayed.world.modules.length
    decide
  have ended : ((Machine.start (Code.finish 1).program relayed.world).after 27).outcome? =
      some .unit := rfl
  obtain ⟨limit, finishes⟩ := Machine.run?_of_after ended
  exact ⟨rfl, rfl, _, rfl, finish_absorbs_reads run rfl made finishes (fun _ => nofun) _ (by decide)⟩

end LiveBindings
