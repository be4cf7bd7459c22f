import LiveBindings.Proofs.Driving
import LiveBindings.Proofs.Repetition

namespace LiveBindings

open Machine

variable {σ : Type} {allowed : Program σ → Prop}

theorem World.module_forward_self {world : World σ} {m : ModuleId} (made : m ∈ world)
    (source : ModuleId) (localName remoteName : String) (value : Option Value) :
    (world.forward m source localName remoteName value).module m =
      (world.module m).define localName value := by
  have recorded : m ∈ world.record m (.forwarded m source localName remoteName value) := by
    rwa [mem_iff, modules_record]
  rw [forward, module_update_self _ recorded, module_record]

/-- A re-export of a name that is not settled, from a module that is mid-step, takes no value. -/
theorem Machine.exists_step_forward {world : World σ} {m source : ModuleId}
    {localName remoteName : String} (rest : List (String × String)) (stack : List (Frame σ))
    (held : (world.module source).held = true)
    (missing : (world.module source).peek remoteName = none) :
    ∃ noted, world.Notes noted ∧
      step ⟨.demand (.forward m source ((localName, remoteName) :: rest)), stack, world⟩ =
        ⟨.demand (.forward m source rest), stack,
          noted.forward m source localName remoteName none⟩ := by
  cases lacks : (world.module source).lacks remoteName with
  | true =>
    refine ⟨world.record source (.refused source), world.notes_record .., ?_⟩
    simp only [step, stepDemand, Demand.awaited?, lacks, if_true, advance, held, join, Demand.react]
  | false =>
    refine ⟨world, .refl world, ?_⟩
    simp [step, stepDemand, Demand.awaited?, lacks, join, Demand.proceed, missing]

theorem Machine.module_step_forward {machine : Machine σ} {m source : ModuleId}
    {localName remoteName : String} {rest : List (String × String)}
    (takes : machine.control = .demand (.forward m source ((localName, remoteName) :: rest)))
    (made : m ∈ machine.world) (held : (machine.world.module source).held = true)
    (missing : (machine.world.module source).peek remoteName = none) :
    machine.step.world.module m = (machine.world.module m).define localName none := by
  obtain ⟨control, stack, world⟩ := machine
  cases takes
  obtain ⟨noted, notes, next⟩ := exists_step_forward rest stack held missing
  have there : m ∈ noted := by
    obtain ⟨events, rfl⟩ := notes
    exact made
  rw [next, World.module_forward_self there, notes.module_eq]

/-- What a name that was taken from a module mid-step comes to: the module and its name, the world
that the re-export left, and a later one. -/
structure World.LeftOpen (m : ModuleId) (name : String) (taken later : World σ) : Prop where
  declared : (later.module m).declares name = true
  /-- The name has no value but the one that was written last since. -/
  written : ∃ events, later.journal = events ++ taken.journal ∧
    (later.module m).peek name = events.findSome? (·.written? m name)

/-- What reads of a name give that the ended body of its module left open. -/
structure World.ReadsOpen (world : World σ) (m : ModuleId) (name : String) (target : Target) :
    Prop where
  strict : (world.module m).config.policy = .strict →
    (Control.demand (.read .resolve target)).Ends world
      (.failed (.exportNotFound (world.label m) name)) world
  lenient : (world.module m).config.policy ≠ .strict →
    (Control.demand (.read .resolve target)).Ends world .unit world
  get : ∃ later, (Control.demand (.read .get target)).Ends world .unit later ∧
    later.modules = world.modules

theorem World.readsOpen_of_completed {world : World σ} {target : Target} {name : String}
    {stack : List (Frame σ)} (orderly : Orderly world (holding stack)) (remote : target.remote = .ok name)
    (declared : (world.module target.source).declares name = true)
    (missing : (world.module target.source).peek name = none)
    (completed : (world.module target.source).state = .completed) :
    world.ReadsOpen target.source name target := by
  have free : (world.module target.source).held = false := by
    rw [← Bool.not_eq_true]
    intro held
    simp [Module.state, held] at completed
  have lacks : (world.module target.source).lacks name = true := by
    simp [Module.lacks, Module.awaits, missing, declared]
  have resolves := Demand.ends_of_rests orderly free remote fun _ => .inr completed
  refine ⟨fun strict => ?_, fun lenient => ?_, ?_⟩
  · have misses : (world.module target.source).Misses name :=
      ⟨strict, missing, by rw [completed]; rfl⟩
    rwa [Module.reading_of_misses misses] at resolves
  · have found : ¬ (world.module target.source).Misses name := fun misses => lenient misses.1
    rw [Module.reading_of_not_misses found, missing] at resolves
    exact resolves
  · have awaited : (Demand.read .get target).awaited? world = some target.source := by
      rw [Demand.awaited?_of_remote .get remote, if_pos lacks]
    obtain ⟨later, given, same⟩ := Demand.giveUp_get target world
    refine ⟨later, fun stack => ?_, same⟩
    have gives : join stack (Demand.giveUp .get target world) = ⟨.answer .unit, stack, later⟩ := by
      rw [given]
      rfl
    rw [← gives]
    rcases World.goes_of_still orderly free (.inr completed) with goes | goes
    · exact Demand.reaches_of_goes awaited goes stack
    · exact Demand.reaches_of_goes awaited goes stack

/-- A name that a module took from one that was mid-step, and had not settled it, stays without a
value until it is written under its own name, whatever becomes of the other module. Once the body of
the module that took it has ended, reading the name gives undefined, or a fault to a strict reader. -/
theorem cyclic_reexport_stays_open {machine later : Machine σ} {turns : List (Turn σ)}
    {m source : ModuleId} {localName remoteName : String} {rest : List (String × String)}
    (run : Run allowed machine turns)
    (takes : machine.control = .demand (.forward m source ((localName, remoteName) :: rest)))
    (made : m ∈ machine.world) (inside : source ∈ owners machine.stack)
    (missing : (machine.world.module source).peek remoteName = none)
    (fresh : (machine.world.module m).peek localName = none) (after : machine.step.Precedes later) :
    World.LeftOpen m localName machine.step.world later.world ∧
      ((later.world.module m).peek localName = none →
        (later.world.module m).state = .completed →
          ∀ target, target.source = m → target.remote = .ok localName →
            later.world.ReadsOpen m localName target) := by
  rw [← owners_holding] at inside
  have held := ((run.orderly.held source).mp inside).2
  have taken := module_step_forward takes made held missing
  have still := made_of_made made
  have declared : (later.world.module m).declares localName = true := by
    refine (after.grows.module m still).declares localName ?_
    rw [taken, Module.declares_define, Bool.or_eq_true]
    exact .inl (decide_eq_true rfl)
  obtain ⟨events, replays⟩ := World.obeyed_replays.precedes run.step after
  refine ⟨⟨declared, events, replays.journal, ?_⟩, ?_⟩
  · have before : (machine.step.world.module m).peek localName = none := by
      rw [taken]
      exact fresh
    rw [replays.peek still, before, Option.or_none]
  · rintro unwritten completed target rfl remote
    obtain ⟨_, ran⟩ := after.run run.weaken.step
    exact World.readsOpen_of_completed ran.orderly remote declared unwritten completed

/-- A module takes a name from another one, which reads the local name before it settles its own. -/
def relinked : Program Unit :=
  Code.program do
    let m ← Code.create [.named "y"] .standard
    let source ← Code.create [.named "x", .named "seen"] .standard
    let _ ← Code.executeStatements m Code.unit [fun m => Code.forward m source [("y", "x")]]
    let _ ← Code.executeStatements source Code.unit
      [fun source => do Code.settle source "seen" (← Code.get m "y"),
        fun source => Code.settle source "x" .null]
    Code.finish source

def relinking : Machine Unit := (Machine.start relinked (.empty .standard ())).after 15

theorem cyclic_reexport_stays_open_of_relinked :
    let later := relinking.step.after 16
    later.outcome? = some .unit ∧ (later.world.module 1).state = .completed ∧
      (later.world.module 1).peek "x" = some .null ∧
      World.LeftOpen 0 "y" relinking.step.world later.world ∧
      later.world.ReadsOpen 0 "y" (.viewed ⟨0, .ofList [("here", "y")]⟩ "here") := by
  intro later
  have run : Run (fun _ => True) relinking _ := (Run.start .standard () trivial).after 15
  have made : 0 ∈ relinking.world := by
    show 0 < relinking.world.modules.length
    decide
  have inside : 1 ∈ owners relinking.stack := by
    rw [show owners relinking.stack = [0, 1] from rfl]
    decide
  have after : relinking.step.Precedes later := relinking.step.precedes_after 16
  obtain ⟨leftOpen, reads⟩ := cyclic_reexport_stays_open run rfl made inside rfl rfl after
  exact ⟨rfl, rfl, rfl, leftOpen, reads rfl rfl _ rfl rfl⟩

/-- A name that was taken from a module mid-step need not resolve when both bodies have ended, the
other module has settled the name, and nothing has written the local one. -/
theorem cyclic_reexport_unresolved : ¬ ∀ (machine later : Machine Unit) (turns : List (Turn Unit))
    (m source : ModuleId) (localName remoteName : String) (rest : List (String × String))
    (value : Value), Run (fun _ => True) machine turns →
      machine.control = .demand (.forward m source ((localName, remoteName) :: rest)) →
      source ∈ owners machine.stack → (machine.world.module source).peek remoteName = none →
      machine.step.Precedes later → (later.world.module m).state = .completed →
      (later.world.module source).state = .completed →
      (later.world.module source).peek remoteName = some value →
      (∀ event ∈ later.world.journal, event.written? m localName = none) →
      ∃ last, (Control.demand (.read .resolve (.named m localName))).Ends later.world
        (.returned value) last := by
  intro resolves
  have run : Run (fun _ => True) relinking _ := (Run.start .standard () trivial).after 15
  have inside : 1 ∈ owners relinking.stack := by
    rw [show owners relinking.stack = [0, 1] from rfl]
    decide
  generalize atEnd : relinking.step.after 16 = later
  have after : relinking.step.Precedes later := atEnd ▸ relinking.step.precedes_after 16
  have unwritten : ∀ event ∈ later.world.journal, event.written? 0 "y" = none := by
    have all : later.world.journal.all (fun event => (event.written? 0 "y").isNone) = true := by
      rw [← atEnd]
      rfl
    exact fun event member => Option.isNone_iff_eq_none.mp (List.all_eq_true.mp all event member)
  subst atEnd
  obtain ⟨last, returns⟩ :=
    resolves relinking _ _ 0 1 "y" "x" [] .null run rfl inside rfl after rfl rfl rfl unwritten
  have ended : ((⟨.demand (.read .resolve (.named 0 "y")), [],
      (relinking.step.after 16).world⟩ : Machine Unit).after 1).outcome? = some .unit := rfl
  have undefined := Control.ends_iff.mpr (Machine.run?_of_after ended)
  cases (undefined.unique returns).1

/-- A name that a module does not declare has come with a re-export or a merge, if it has come. -/
theorem World.Replays.exists_brings {before after : World σ} {events : List Event} {m : ModuleId}
    {name : String} (replays : before.Replays after events) (made : m ∈ before)
    (closed : (after.module m).Sealed) (undeclared : (before.module m).declares name = false)
    (settled : ((after.module m).peek name).isSome = true) :
    ∃ event ∈ events, event.brings m name = true := by
  have declared := closed name settled
  rw [replays.declares made, undeclared, Bool.or_false] at declared
  exact List.any_eq_true.mp declared

/-- A read that gives undefined and leaves the body suspended found that the name is not declared and
that no merge is outstanding. If finishing the module settles the name all the same, then a re-export
or one more merge has brought it. -/
theorem late_names_are_brought {machine : Machine σ} {turns : List (Turn σ)} {target : Target}
    {name : String} {outcome : Outcome} {read final : World σ} (run : Run allowed machine turns)
    (remote : target.remote = .ok name) (made : target.source ∈ machine.world)
    (outside : target.source ∉ owners machine.stack)
    (reads : (Control.demand (.read .resolve target)).Ends machine.world .unit read)
    (missing : (read.module target.source).peek name = none)
    (waits : (read.module target.source).state = .suspended)
    (finishes : (Control.demand (.finish target.source)).Ends read outcome final) :
    (read.module target.source).declares name = false ∧
      (read.module target.source).pendingWildcards = 0 ∧
      ∃ events, final.journal = events ++ read.journal ∧
        (final.module target.source).peek name =
          events.findSome? (·.written? target.source name) ∧
        (((final.module target.source).peek name).isSome = true →
          ∃ event ∈ events, event.brings target.source name = true) := by
  rw [← owners_holding] at outside
  have free := run.orderly.free made outside
  obtain ⟨freed, answers⟩ := Demand.exists_reads reads (fun _ => nofun) remote run.orderly free
  have grows := (reads []).grows
  obtain ⟨undeclared, answered⟩ :=
    (answers.resolves (grows.module target.source made) freed).suspended missing waits
  refine ⟨undeclared, answered, ?_⟩
  obtain ⟨events, replays⟩ := World.obeyed_replays.ends finishes
  have closed := World.obeyed_sealed.ends finishes (World.obeyed_sealed.ends reads run.sealed)
  have still := grows.mem made
  refine ⟨events, replays.journal, ?_, replays.exists_brings still (closed _) undeclared⟩
  have written := replays.peek still name
  rw [missing, Option.or_none] at written
  exact written

/-- The body of a module that declares nothing takes a settled name from another module. -/
def latecomer : Program Unit :=
  Code.program do
    let source ← Code.create [.named "x"] .standard
    let _ ← Code.settle source "x" .null
    let m ← Code.create [] .standard
    Code.executeStatements m Code.unit [fun m => Code.forward m source [("y", "x")]]

def latecome : Machine Unit := (Machine.start latecomer (.empty .standard ())).after 7

theorem latecome_reads : (Control.demand (.read .resolve (.named 1 "y"))).Ends latecome.world .unit
    latecome.world := by
  have ended : ((⟨.demand (.read .resolve (.named 1 "y")), [], latecome.world⟩ :
      Machine Unit).after 1).outcome? = some .unit := rfl
  exact Control.ends_iff.mpr (Machine.run?_of_after ended)

theorem late_names_are_brought_of_latecomer :
    ∃ final : World Unit, (latecome.world.module 1).declares "y" = false ∧
      (latecome.world.module 1).pendingWildcards = 0 ∧
      (final.module 1).peek "y" = some .null ∧
      ∃ events, final.journal = events ++ latecome.world.journal ∧
        ∃ event ∈ events, event.brings 1 "y" = true := by
  have run : Run (fun _ => True) latecome _ := (Run.start .standard () trivial).after 7
  have made : (Target.named 1 "y").source ∈ latecome.world := by
    show 1 < latecome.world.modules.length
    decide
  have ended : ((⟨.demand (.finish 1), [], latecome.world⟩ : Machine Unit).after 9).outcome? =
      some .unit := rfl
  have finishes := Control.ends_iff.mpr (Machine.run?_of_after ended)
  obtain ⟨undeclared, answered, events, journal, _, brings⟩ :=
    late_names_are_brought run rfl made nofun latecome_reads rfl rfl finishes
  exact ⟨_, undeclared, answered, rfl, events, journal, brings rfl⟩

/-- A read that gives undefined and leaves the body suspended need not be final for the body. -/
theorem undefined_read_not_final : ¬ ∀ (machine : Machine Unit) (turns : List (Turn Unit))
    (m : ModuleId) (name : String) (outcome : Outcome) (read final : World Unit),
    Run (fun _ => True) machine turns → m ∈ machine.world → m ∉ owners machine.stack →
      (Control.demand (.read .resolve (.named m name))).Ends machine.world .unit read →
      (read.module m).peek name = none → (read.module m).state = .suspended →
      (Control.demand (.finish m)).Ends read outcome final →
      (final.module m).peek name = none := by
  intro stays
  have run : Run (fun _ => True) latecome _ := (Run.start .standard () trivial).after 7
  have made : 1 ∈ latecome.world := by
    show 1 < latecome.world.modules.length
    decide
  have ended : ((⟨.demand (.finish 1), [], latecome.world⟩ : Machine Unit).after 9).outcome? =
      some .unit := rfl
  have finishes := Control.ends_iff.mpr (Machine.run?_of_after ended)
  cases stays latecome _ 1 "y" _ _ _ run made nofun latecome_reads rfl rfl finishes

end LiveBindings
