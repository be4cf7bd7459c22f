import LiveBindings.Proofs.Advance
import LiveBindings.Proofs.Origin
import LiveBindings.Proofs.Setting

namespace LiveBindings

open Machine

variable {σ : Type}

namespace Module

variable {module : Module σ} {entries : List (String × Value)} {name : String}

/-- The name that a commit is refused for is the first one of its list that is not declared. -/
theorem exists_of_firstUndeclared? (first : module.firstUndeclared? entries = some name) :
    ∃ early value late, entries = early ++ (name, value) :: late ∧
      (∀ entry ∈ early, module.declares entry.1 = true) ∧ module.declares name = false := by
  obtain ⟨undeclared, before, after, names, declared⟩ := List.find?_eq_some_iff_append.mp first
  obtain ⟨early, others, rfl, rfl, tail⟩ := List.map_eq_append_iff.mp names
  obtain ⟨entry, late, rfl, rfl, rfl⟩ := List.map_eq_cons_iff.mp tail
  refine ⟨early, entry.2, late, rfl, fun other member => ?_, by simpa using undeclared⟩
  simpa using declared other.1 (List.mem_map_of_mem member)

/-- The module loads when names of it are committed: it has no body, or its body has ended. -/
def Opens (module : Module σ) : Prop := module.state = .pending ∨ module.state = .completed

instance : Decidable module.Opens := inferInstanceAs (Decidable (_ ∨ _))

/-- The hooks that run when names of the module are committed. -/
def due (module : Module σ) : List (Hook σ) := if module.Opens then module.hooks.getD [] else []

end Module

namespace World

variable {world middle later : World σ} {m : ModuleId} {entries : List (String × Value)}

/-- What a world has after all names of a list were settled in one of its modules. -/
structure Settles (before : World σ) (m : ModuleId) (entries : List (String × Value))
    (after : World σ) : Prop where
  /-- Each name of the list has the value that the list gives it last. -/
  last : ∀ early name value late, entries = early ++ (name, value) :: late →
    name ∉ late.map Prod.fst → (after.module m).peek name = some value
  /-- The values of other names are as they were. -/
  kept : ∀ name, name ∉ entries.map Prod.fst →
    (after.module m).peek name = (before.module m).peek name
  /-- Apart from its values, so is the module. -/
  module : after.module m = { before.module m with bindings := (after.module m).bindings }
  others : ∀ other ≠ m, after.module other = before.module other
  setting : after.setting = before.setting

theorem settles_settleAll (made : m ∈ world) (entries : List (String × Value)) :
    world.Settles m entries (world.settleAll m entries) := by
  have written := module_settleAll_self made entries
  refine ⟨?_, fun name absent => ?_, ?_, fun other differs => ?_, setting_settleAll ..⟩
  · rintro early name value late rfl absent
    have later : Table.findIn name late.reverse = none := Table.findIn_eq_none (by simpa using absent)
    rw [written, Module.peek_bindAll, List.reverse_append, List.reverse_cons, Table.findIn_append,
      Table.findIn_append, later]
    simp [Table.findIn]
  · have missing : Table.findIn name entries.reverse = none :=
      Table.findIn_eq_none (by simpa using absent)
    rw [written, Module.peek_bindAll, missing, Option.none_or]
  · rw [written]
    exact Module.bindAll_eq ..
  · exact module_settleAll_of_ne world differs entries

/-- The world in which a commit has written the names of a list. -/
def committed (world : World σ) (m : ModuleId) (entries : List (String × Value)) : World σ :=
  (world.record m (.committed m (world.module m).state)).settleAll m entries

theorem settles_committed (made : m ∈ world) (entries : List (String × Value)) :
    world.Settles m entries (world.committed m entries) := by
  have marked : m ∈ world.record m (.committed m (world.module m).state) := by
    rwa [mem_iff, modules_record]
  obtain ⟨last, kept, module, others, setting⟩ := settles_settleAll marked entries
  simp only [module_record] at kept module others
  rw [setting_record] at setting
  exact ⟨last, kept, module, others, setting⟩

/-- The world in which the hooks of a module begin that wait for a commit. -/
def opened (world : World σ) (m : ModuleId) : World σ :=
  if (world.module m).Opens then
    match (world.module m).hooks with
    | none => world
    | some queue => (world.update m Module.load).record m (.hooksRun m queue.length)
  else world

theorem unwritten_opened (world : World σ) (m : ModuleId) : world.Unwritten (world.opened m) := by
  unfold opened
  split
  · split
    · exact .refl world
    · have loads : world.Unwritten (world.update m Module.load) :=
        world.unwritten_update m fun _ => rfl
      exact loads.trans (unwritten_record ..)
  · exact .refl world

/-- The hooks of a commit run one after another, as far as the first one that panics. -/
inductive RunsCommitted (m : ModuleId) : World σ → List (Hook σ) → Outcome → World σ → Prop
  | nil (world : World σ) : RunsCommitted m world [] .unit world
  | cons {world middle later : World σ} {hook rest ended outcome} :
      (Control.run (hook.code m)).Ends (world.record m (.hookStarted m hook.ticket)) ended middle →
      ended.Calm → RunsCommitted m middle rest outcome later →
      RunsCommitted m world (hook :: rest) outcome later
  | panicked {world later : World σ} {hook rest message} :
      (Control.run (hook.code m)).Ends (world.record m (.hookStarted m hook.ticket))
        (.panicked message) later →
      RunsCommitted m world (hook :: rest) (.panicked message) later

variable {queue : List (Hook σ)} {outcome : Outcome}

theorem RunsCommitted.ne_failed (runs : RunsCommitted m world queue outcome later) (fault : Fault) :
    outcome ≠ .failed fault := by
  induction runs with
  | nil => exact nofun
  | cons _ _ _ ih => exact ih
  | panicked => exact nofun

theorem RunsCommitted.reaches (runs : RunsCommitted m world queue outcome later)
    (next : Outcome → Program σ) (stack : List (Frame σ)) :
    Reaches (runHooks m (.answer .unit) (.caller next :: stack) world queue)
      ⟨.run (next outcome), stack, later⟩ := by
  induction runs with
  | nil => exact .of_step rfl
  | @cons world middle later hook rest ended outcome ends calm _ ih =>
    refine (ends (.hooks m rest (.answer .unit) :: .caller next :: stack)).trans (.step ?_)
    cases ended with
    | panicked message => exact absurd rfl (calm message)
    | failed cause => exact ih
    | returned value => exact ih
  | @panicked world later hook rest message ends =>
    exact ((ends (.hooks m rest (.answer .unit) :: .caller next :: stack)).then rfl).then rfl

end World

namespace Machine

variable {machine : Machine σ} {world last : World σ} {m : ModuleId} {next : Outcome → Program σ}
  {entries : List (String × Value)} {outcome : Outcome} {limit : Nat}

/-- Where a commit has ended, its hooks have run. -/
theorem runsCommitted_of_run? {queue : List (Hook σ)}
    (ends : run? limit (runHooks m (.answer .unit) [.caller .done] world queue) =
      some (outcome, last)) : World.RunsCommitted m world queue outcome last := by
  induction queue generalizing limit world with
  | nil =>
    obtain ⟨rfl, rfl⟩ := eq_of_handed ends
    exact .nil _
  | cons hook rest ih =>
    obtain ⟨ended, middle, left, _, runs, answered⟩ := Control.exists_ends ends
    obtain ⟨left', _, handed⟩ := run?_of_going rfl answered
    cases ended with
    | panicked message =>
      obtain ⟨rfl, rfl⟩ := eq_of_handed handed
      exact .panicked runs
    | failed cause => exact .cons runs (fun _ => nofun) (ih handed)
    | returned value => exact .cons runs (fun _ => nofun) (ih handed)

theorem World.due_committed (made : m ∈ world) (entries : List (String × Value)) :
    (((world.committed m entries).module m).Opens ↔ (world.module m).Opens) ∧
      ((world.committed m entries).module m).due = (world.module m).due := by
  rw [(World.settles_committed made entries).module]
  exact ⟨.rfl, rfl⟩

theorem load_of_opens (opens : (world.module m).Opens) (after : After) (stack : List (Frame σ)) :
    load m after stack world = runHooks m after stack (world.opened m) (world.module m).due := by
  simp only [load, World.opened, Module.due, if_pos opens]
  cases (world.module m).hooks <;> rfl

/-- How a commit goes on when all its names are declared. -/
theorem step_of_commit_declared (control : machine.control = .run (.commit m entries next))
    (declared : ∀ entry ∈ entries, (machine.world.module m).declares entry.1 = true) :
    machine.step =
      if (machine.world.module m).Opens then
        load m (.answer .unit) (.caller next :: machine.stack) (machine.world.committed m entries)
      else ⟨.run (next .unit), machine.stack, machine.world.committed m entries⟩ := by
  obtain ⟨_, stack, world⟩ := machine
  cases control
  simp only [step, stepProgram, commit_eq, Module.firstUndeclared?_eq_none.mpr declared]
  split
  · next pending => exact (if_pos (.inl pending)).symm
  · next completed => exact (if_pos (.inr completed)).symm
  · next unlike unlike' => exact (if_neg (not_or.mpr ⟨unlike, unlike'⟩)).symm

/-- What follows when a commit has written its names: the hooks that wait for it run, and the commit
ends when they have. -/
structure Publishes (machine : Machine σ) (m : ModuleId) (entries : List (String × Value))
    (next : Outcome → Program σ) (written : World σ) : Prop where
  /-- Nothing runs before the first hook, which finds all the names written. -/
  begins : ∀ hook rest, (machine.world.module m).due = hook :: rest → machine.step =
    ⟨.run (hook.code m), .hooks m rest (.answer .unit) :: .caller next :: machine.stack,
      (written.opened m).record m (.hookStarted m hook.ticket)⟩
  /-- Loading writes no names. -/
  unwritten : written.Unwritten (written.opened m)
  goesOn : ∀ outcome later,
    World.RunsCommitted m (written.opened m) (machine.world.module m).due outcome later →
      machine.Reaches ⟨.run (next outcome), machine.stack, later⟩
  ends_iff : ∀ outcome later,
    (Control.run (.commit m entries .done)).Ends machine.world outcome later ↔
      World.RunsCommitted m (written.opened m) (machine.world.module m).due outcome later
  faultless : ∀ fault later,
    ¬ (Control.run (.commit m entries .done)).Ends machine.world (.failed fault) later

/-- A commit begins with the hooks that wait for it. Where none can, it ends at once. -/
theorem step_of_commit (control : machine.control = .run (.commit m entries next))
    (made : m ∈ machine.world)
    (declared : ∀ entry ∈ entries, (machine.world.module m).declares entry.1 = true) :
    machine.step = runHooks m (.answer .unit) (.caller next :: machine.stack)
        ((machine.world.committed m entries).opened m) (machine.world.module m).due ∨
      machine.step =
          ⟨.run (next .unit), machine.stack, (machine.world.committed m entries).opened m⟩ ∧
        (machine.world.module m).due = [] := by
  obtain ⟨same, due⟩ := World.due_committed made entries
  rw [step_of_commit_declared control declared]
  by_cases opens : (machine.world.module m).Opens
  · rw [if_pos opens, load_of_opens (same.mpr opens), due]
    exact .inl rfl
  · rw [if_neg opens, World.opened, if_neg (mt same.mp opens), Module.due, if_neg opens]
    exact .inr ⟨rfl, rfl⟩

theorem reaches_of_runsCommitted {later : World σ}
    (control : machine.control = .run (.commit m entries next)) (made : m ∈ machine.world)
    (declared : ∀ entry ∈ entries, (machine.world.module m).declares entry.1 = true)
    (runs : World.RunsCommitted m ((machine.world.committed m entries).opened m)
      (machine.world.module m).due outcome later) :
    machine.Reaches ⟨.run (next outcome), machine.stack, later⟩ := by
  refine .step ?_
  rcases step_of_commit control made declared with hooks | ⟨atEnd, none⟩
  · rw [hooks]
    exact runs.reaches next machine.stack
  · rw [none] at runs
    cases runs
    rw [atEnd]
    exact .refl _

theorem ends_commit_iff {later : World σ} (made : m ∈ world)
    (declared : ∀ entry ∈ entries, (world.module m).declares entry.1 = true) :
    (Control.run (.commit m entries .done)).Ends world outcome later ↔
      World.RunsCommitted m ((world.committed m entries).opened m) (world.module m).due outcome
        later := by
  have control (stack : List (Frame σ)) :
      control ⟨.run (.commit m entries .done), stack, world⟩ = .run (.commit m entries .done) := rfl
  constructor
  · intro ends
    obtain ⟨limit, result⟩ := Control.ends_iff.mp ends
    obtain ⟨rest, _, next⟩ := run?_of_going rfl result
    rcases step_of_commit (control []) made declared with hooks | ⟨atEnd, none⟩
    · rw [hooks] at next
      exact runsCommitted_of_run? next
    · rw [atEnd] at next
      obtain ⟨rfl, rfl⟩ := Control.ends_answer.mp (Control.ends_iff.mpr ⟨rest, next⟩)
      rw [none]
      exact .nil _
  · exact fun runs stack => reaches_of_runsCommitted (control stack) made declared runs

/-- How a machine commits a list of names. -/
structure Commits (machine : Machine σ) (m : ModuleId) (entries : List (String × Value))
    (next : Outcome → Program σ) : Prop where
  /-- A commit with a name that is not declared fails with the first such name, in the world as it
  is. -/
  refused : (∃ entry ∈ entries, (machine.world.module m).declares entry.1 = false) →
    ∃ early name value late, entries = early ++ (name, value) :: late ∧
      (∀ entry ∈ early, (machine.world.module m).declares entry.1 = true) ∧
      (machine.world.module m).declares name = false ∧
      machine.step = ⟨.run (next (.failed (.undeclaredExport (machine.world.label m) name))),
        machine.stack, machine.world⟩
  /-- Otherwise each of the writes succeeds, and all are made before anything else runs. -/
  accepted : (∀ entry ∈ entries, (machine.world.module m).declares entry.1 = true) →
    ∃ written,
      (machine.world.record m (.committed m (machine.world.module m).state)).settleEach m entries =
        (.ok (), written) ∧
      machine.world.Settles m entries written ∧ machine.Publishes m entries next written

end Machine

/-- Wherever a commit is made, it settles all its names before anything else runs, or it is refused and
changes nothing. It does not fail once its names have passed the check. -/
theorem commit_all_or_none {machine : Machine σ} {m : ModuleId} {entries : List (String × Value)}
    {next : Outcome → Program σ} (control : machine.control = .run (.commit m entries next))
    (made : m ∈ machine.world) : machine.Commits m entries next where
  refused := by
    rintro ⟨entry, member, undeclared⟩
    cases first : (machine.world.module m).firstUndeclared? entries with
    | none =>
      have declared := Module.firstUndeclared?_eq_none.mp first entry member
      cases undeclared.symm.trans declared
    | some name =>
      obtain ⟨early, value, late, split, before, missing⟩ := Module.exists_of_firstUndeclared? first
      refine ⟨early, name, value, late, split, before, missing, ?_⟩
      obtain ⟨_, stack, world⟩ := machine
      cases control
      simp only [step, stepProgram, commit_eq, first]
  accepted := by
    intro declared
    refine ⟨machine.world.committed m entries, ?_, World.settles_committed made entries, ?_⟩
    · refine World.settleEach_of_declared ?_
      rwa [World.module_record]
    · refine ⟨fun hook rest due => ?_, World.unwritten_opened .., fun outcome later runs => ?_,
        fun outcome later => ends_commit_iff made declared, fun fault later ends => ?_⟩
      · rcases step_of_commit control made declared with hooks | ⟨_, none⟩
        · rw [hooks, due]
          rfl
        · cases due.symm.trans none
      · exact reaches_of_runsCommitted control made declared runs
      · exact ((ends_commit_iff made declared).mp ends).ne_failed fault rfl

/-- A hook waits for a module. One commit is refused, and the next one names an export twice. -/
def publishing : Program Unit :=
  Code.program do
    let m ← Code.create [.named "a", .named "b"] .standard
    let _ ← Code.importer m fun m => do Code.settle m "b" (← Code.get m "a")
    let _ ← (Code.commit m [("a", .null), ("typo", .null), ("other", .null)]).outcome
    Code.commit m [("a", .null), ("b", .null), ("a", .boolean true)]

/-- The machine that runs the program, after so many transitions. -/
def publishingAfter (count : Nat) : Machine Unit :=
  (Machine.start publishing (.empty .standard ())).after count

theorem commit_all_or_none_of_publishing :
    let first := publishingAfter 2
    let second := publishingAfter 3
    (∃ next, first.control =
        .run (.commit 0 [("a", .null), ("typo", .null), ("other", .null)] next) ∧
      first.step = ⟨.run (next (.failed (.undeclaredExport (first.world.label 0) "typo"))), [],
        first.world⟩) ∧
    ∃ written : World Unit, (written.module 0).peek "a" = some (.boolean true) ∧
      (written.module 0).peek "b" = some .null ∧
      ∃ hook : ModuleId → Program Unit,
        second.step = ⟨.run (hook 0), [.hooks 0 [] (.answer .unit), .caller .done],
          (written.opened 0).record 0 (.hookStarted 0 0)⟩ := by
  intro first second
  have made (count : Nat) (size : (publishingAfter count).world.modules.length = 1) :
      0 ∈ (publishingAfter count).world := World.mem_iff.mpr (size ▸ Nat.one_pos)
  constructor
  · obtain ⟨next, control⟩ : ∃ next, first.control =
        .run (.commit 0 [("a", .null), ("typo", .null), ("other", .null)] next) := ⟨_, rfl⟩
    refine ⟨next, control, ?_⟩
    obtain ⟨early, name, value, late, split, declared, undeclared, step⟩ :=
      (commit_all_or_none control (made 2 rfl)).refused ⟨("typo", .null), by simp, rfl⟩
    rcases early with _ | ⟨one, _ | ⟨other, rest⟩⟩
    · cases split
      cases undeclared
    · cases split
      exact step
    · simp only [List.cons_append, List.cons.injEq] at split
      obtain ⟨rfl, rfl, _⟩ := split
      cases declared ("typo", .null) (by simp)
  · obtain ⟨written, _, settles, publishes⟩ :=
      (commit_all_or_none rfl (made 3 rfl)).accepted (by decide)
    exact ⟨written, settles.last [_, _] "a" _ [] rfl nofun, settles.last [_] "b" _ [_] rfl (by decide),
      _, publishes.begins _ _ rfl⟩

/-- A hook reads a name of another module, whose body writes a name that it does not declare. -/
def heedless : Program Unit :=
  Code.program do
    let source ← Code.create [.named "x"] .standard
    let _ ← Code.executeStatements source Code.unit [fun m => Code.settle m "typo" .null]
    let m ← Code.create [.named "a"] .standard
    let _ ← Code.importer m fun _ => Code.get source "x"
    Code.commit m [("a", .null)]

/-- A commit of declared names need not come to a good end: a panic of a hook goes through it. -/
theorem commit_panics : ¬ ∀ (machine : Machine Unit) (turns : List (Turn Unit)) (m : ModuleId)
    (entries : List (String × Value)) (next : Outcome → Program Unit),
    Run (fun _ => True) machine turns → machine.control = .run (.commit m entries next) →
      m ∈ machine.world →
      (∀ entry ∈ entries, (machine.world.module m).declares entry.1 = true) →
      ∃ later, machine.Reaches ⟨.run (next .unit), machine.stack, later⟩ := by
  intro ends
  have run : Run (fun _ => True) ((Machine.start heedless (.empty .standard ())).after 7) _ :=
    (Run.start .standard () trivial).after 7
  obtain ⟨later, returns⟩ := ends _ _ 1 [("a", .null)] .done run rfl
    (World.mem_iff.mpr (by decide)) (by decide)
  have panics := reaches_after ((Machine.start heedless (.empty .standard ())).after 7) 8
  cases returns.unique rfl panics rfl

end LiveBindings
