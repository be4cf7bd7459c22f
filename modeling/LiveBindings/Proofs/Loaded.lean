import LiveBindings.Proofs.Course
import LiveBindings.Proofs.Lifecycle
import LiveBindings.Proofs.Tally

namespace LiveBindings

variable {σ : Type} {allowed : Program σ → Prop}

/-- A commit on a module is about to pass its check. The module was given no body before, and the
commit is not made inside a factory of the module's own. -/
structure Machine.CommitsBare (m : ModuleId) (machine : Machine σ) (past : List (Turn σ)) : Prop where
  made : m ∈ machine.world
  passes : ∃ entries next, machine.control = .run (.commit m entries next) ∧
    (machine.world.module m).firstUndeclared? entries = none
  bare : bodies m past = []
  outside : ∀ body, .building m body ∉ machine.stack

/-- Transitions that do not make a module load. -/
inductive Machine.Spares (m : ModuleId) (machine : Machine σ) : Prop
  /-- A value is exported, all names of another module are taken, or something else is done at once. -/
  | acts {action : Action} {next : action.Reply → Program σ} :
      machine.control = .run (.act action next) → Spares m machine
  /-- A read, a re-export by name or any other demand begins. -/
  | asks {demand : Demand} {next : Outcome → Program σ} :
      machine.control = .run (.demand demand next) → Spares m machine
  /-- The demand goes on, and may resume a body. -/
  | demands {demand : Demand} : machine.control = .demand demand → Spares m machine
  /-- A factory is asked for a body. -/
  | executes {n : ModuleId} {factory : Program σ} {code : Nat → ModuleId → Program σ}
      {ending : Ending} {next : Outcome → Program σ} :
      machine.control = .run (.execute n factory code ending next) → Spares m machine
  /-- A factory has ended, and its body is attached. -/
  | attached {n : ModuleId} {body : Body σ} : machine.turn = .attached n body → Spares m machine
  | failed {n : ModuleId} {cause : Fault} : machine.turn = .failed n cause → Spares m machine
  /-- A commit is rejected. -/
  | rejected {n : ModuleId} {entries : List (String × Value)} {next : Outcome → Program σ}
      {name : String} : machine.control = .run (.commit n entries next) →
      (machine.world.module n).firstUndeclared? entries = some name → Spares m machine
  /-- A commit is made while the body is suspended, mid-step, being made, failed or at its end. -/
  | late {entries : List (String × Value)} {next : Outcome → Program σ} :
      machine.control = .run (.commit m entries next) →
      (machine.world.module m).state ≠ .pending → Spares m machine

/-- Why a module has loaded, where a run has come to. -/
structure Machine.LoadsDuly (allowed : Program σ → Prop) (m : ModuleId) (machine : Machine σ)
    (turns : List (Turn σ)) : Prop where
  /-- The module has loaded exactly when its body came to its end, or some earlier commit passed its
  check before there was a body. -/
  loaded : (machine.world.module m).isLoaded = true ↔ (∃ value, .completed m value ∈ turns) ∨
    ∃ earlier past, Run allowed earlier past ∧ past ++ [earlier.turn] <+: turns ∧
      earlier.step.Precedes machine ∧ earlier.CommitsBare m past
  /-- The body came to its end exactly when the stored state tells so. -/
  completed : (∃ value, .completed m value ∈ turns) ↔
    (machine.world.module m).slot.state = .completed
  /-- The module is seen to be pending exactly while it has had no body and none is being made. -/
  pending : m ∈ machine.world → ((machine.world.module m).state = .pending ↔
    bodies m turns = [] ∧ ∀ body, .building m body ∉ machine.stack)
  /-- What has loaded stays so. -/
  stays : ∀ later, machine.Precedes later → (machine.world.module m).isLoaded = true →
    (later.world.module m).isLoaded = true
  /-- A transition that makes the module load ends its body or passes such a commit. -/
  loads : (machine.world.module m).isLoaded = false →
    (machine.step.world.module m).isLoaded = true →
      (∃ value, machine.turn = .completed m value) ∨ machine.CommitsBare m turns
  /-- All other operations leave the module as it is. -/
  spared : machine.Spares m →
    (machine.step.world.module m).isLoaded = (machine.world.module m).isLoaded

namespace Machine

variable {machine later : Machine σ} {m : ModuleId} {past : List (Turn σ)}

theorem isLoaded_of_precedes (precedes : machine.Precedes later)
    (loaded : (machine.world.module m).isLoaded = true) :
    (later.world.module m).isLoaded = true := by
  induction precedes with
  | refl => exact loaded
  | step _ ih => exact isLoaded_step (World.mem_of_isLoaded ih) ih
  | next _ _ _ ih => exact ih

/-- A commit that passes its check makes a pending module load. -/
theorem isLoaded_of_commit {entries : List (String × Value)} {next : Outcome → Program σ}
    (commits : machine.control = .run (.commit m entries next))
    (passes : (machine.world.module m).firstUndeclared? entries = none)
    (pending : (machine.world.module m).state = .pending) :
    (machine.step.world.module m).isLoaded = true := by
  obtain ⟨control, stack, world⟩ := machine
  cases commits
  have free := Module.free_of_state pending nofun
  let settled := (world.record m (.committed m (world.module m).state)).settleAll m entries
  have loads : step ⟨.run (.commit m entries next), stack, world⟩ =
      load m (.answer .unit) (.caller next :: stack) settled := by
    simp only [step, stepProgram, commit_eq, passes, pending, settled]
  have keeps : world.Keeps settled :=
    (world.keeps_record m (.committed m (world.module m).state)).trans
      (World.writes_settleAll _ m entries).keeps
  have made : m ∈ settled := Nat.lt_of_lt_of_le (World.mem_of_free free) keeps.made
  rw [loads]
  exact isLoaded_load made ..

theorem control_of_completed {value : Value} (completed : machine.turn = .completed m value) :
    machine.control = .answer (.returned value) := by
  refine (control_of_outcome? ?_).1
  rw [completed]
  rfl

theorem Spares.turn_ne_completed (spares : machine.Spares m) (value : Value) :
    machine.turn ≠ .completed m value := by
  intro turn
  have control := control_of_completed turn
  cases spares with
  | acts other | asks other | demands other | executes other | rejected other | late other =>
    cases control.symm.trans other
  | attached other | failed other => cases turn.symm.trans other

end Machine

theorem Chronicle.slot_of_bare {m : ModuleId} {life : Life σ} {past : List (Passage σ)}
    (chronicle : Chronicle m life [] past) : life.slot = .empty := by
  cases chronicle with
  | unattached slot _ => exact slot

namespace Run

variable {machine : Machine σ} {turns : List (Turn σ)} {m : ModuleId}

theorem completed_iff (run : Run allowed machine turns) (m : ModuleId) :
    (∃ value, .completed m value ∈ turns) ↔ (machine.world.module m).slot.state = .completed := by
  induction run with
  | start template host =>
    refine ⟨fun told => ?_, fun completed => ?_⟩
    · obtain ⟨_, member⟩ := told
      cases member
    · exact absurd (World.mem_of_completed completed) (Nat.not_lt_zero m)
  | next _ _ _ ih => exact ih
  | @step machine turns run ih =>
    constructor
    · rintro ⟨value, member⟩
      rcases List.mem_append.mp member with before | last
      · have completed := ih.mp ⟨value, before⟩
        have made := World.mem_of_completed completed
        rw [Module.slot_of_life (run.life_step_of_final made (by rw [completed]; rfl))]
        exact completed
      · have turn : .completed m value = machine.turn := List.mem_singleton.mp last
        have about : machine.turn.about? = some m := congrArg Turn.about? turn.symm
        have made := run.orderly.mem_of_about machine.transition.enabled machine.transition.moves about
        rw [Module.slot_of_life (Machine.life_step_of_about made about), ← turn]
        rfl
    · intro completed
      rcases run.completed_step completed with before | ⟨value, turn⟩
      · obtain ⟨value, member⟩ := ih.mpr before
        exact ⟨value, List.mem_append_left _ member⟩
      · exact ⟨value, List.mem_append_right _ (List.mem_singleton.mpr turn.symm)⟩

theorem pending_iff (run : Run allowed machine turns) (made : m ∈ machine.world) :
    (machine.world.module m).state = .pending ↔
      bodies m turns = [] ∧ ∀ body, .building m body ∉ machine.stack := by
  have chronicle := run.chronicle m
  constructor
  · intro pending
    have free := Module.free_of_state pending nofun
    rw [Module.state_of_free free] at pending
    have empty := ((run.orderly.shaped m made).of_pending pending).1
    refine ⟨(chronicle.of_empty empty).1, fun body inside => ?_⟩
    cases free.symm.trans ((run.held_iff made).mpr ⟨_, inside, rfl⟩)
  · rintro ⟨bare, outside⟩
    rw [bare] at chronicle
    have empty : (machine.world.module m).slot = .empty := chronicle.slot_of_bare
    have free : (machine.world.module m).held = false := by
      rw [← Bool.not_eq_true]
      intro held
      obtain ⟨frame, inside, owner⟩ := (run.held_iff made).mp held
      cases run.fits inside owner with
      | building =>
        cases owner
        exact outside _ inside
      | stepping slot =>
        cases owner
        cases empty.symm.trans slot
    rw [Module.state_of_free free, empty]
    rfl

/-- What makes a module load is the end of its body, or a commit while it has none. -/
theorem loads_of_step (run : Run allowed machine turns)
    (before : (machine.world.module m).isLoaded = false)
    (after : (machine.step.world.module m).isLoaded = true) :
    (∃ value, machine.turn = .completed m value) ∨ machine.CommitsBare m turns := by
  obtain ⟨queue, waits⟩ := Option.isSome_iff_exists.mp (Option.isNone_eq_false_iff.mp before)
  have gone := Option.isNone_iff_eq_none.mp after
  cases (Machine.stirs run.tended m).loading waits gone with
  | completed turn => exact .inl ⟨_, turn⟩
  | @committed entries next control passes ended =>
    rcases ended with pending | completed
    · have made := World.mem_of_free (Module.free_of_state pending nofun)
      obtain ⟨bare, outside⟩ := (run.pending_iff made).mp pending
      exact .inr ⟨made, ⟨entries, next, control, passes⟩, bare, outside⟩
    · rw [Module.state_of_free (Module.free_of_state completed nofun)] at completed
      have made := World.mem_of_completed completed
      cases before.symm.trans (run.isLoaded_of_completed made completed)

theorem isLoaded_iff (run : Run allowed machine turns) (m : ModuleId) :
    (machine.world.module m).isLoaded = true ↔ (∃ value, .completed m value ∈ turns) ∨
      ∃ earlier past, Run allowed earlier past ∧ past ++ [earlier.turn] <+: turns ∧
        earlier.step.Precedes machine ∧ earlier.CommitsBare m past := by
  constructor
  · intro loaded
    induction run with
    | start template host => exact absurd (World.mem_of_isLoaded loaded) (Nat.not_lt_zero m)
    | @next machine turns outcome program run ended _ ih =>
      refine (ih loaded).imp_right ?_
      rintro ⟨earlier, past, before, within, precedes, commits⟩
      exact ⟨earlier, past, before, within, precedes.next program ended, commits⟩
    | @step machine turns run ih =>
      cases old : (machine.world.module m).isLoaded with
      | true =>
        refine (ih old).imp ?_ ?_
        · rintro ⟨value, member⟩
          exact ⟨value, List.mem_append_left _ member⟩
        · rintro ⟨earlier, past, before, within, precedes, commits⟩
          exact ⟨earlier, past, before, within.trans (List.prefix_append ..), precedes.step, commits⟩
      | false =>
        refine (run.loads_of_step old loaded).imp ?_ fun commits => ?_
        · rintro ⟨value, turn⟩
          exact ⟨value, List.mem_append_right _ (List.mem_singleton.mpr turn.symm)⟩
        · exact ⟨machine, turns, run, List.prefix_rfl, .refl _, commits⟩
  · rintro (told | ⟨earlier, past, before, _, precedes, commits⟩)
    · have completed := (run.completed_iff m).mp told
      exact run.isLoaded_of_completed (World.mem_of_completed completed) completed
    · obtain ⟨entries, next, control, passes⟩ := commits.passes
      have pending := (before.pending_iff commits.made).mpr ⟨commits.bare, commits.outside⟩
      exact Machine.isLoaded_of_precedes precedes
        (Machine.isLoaded_of_commit control passes pending)

theorem not_commitsBare_of_spares (run : Run allowed machine turns) (spares : machine.Spares m) :
    ¬ machine.CommitsBare m turns := by
  rintro ⟨made, ⟨entries, next, control, passes⟩, bare, outside⟩
  have quiet : machine.turn = .quiet := by rw [Machine.turn, control]
  cases spares with
  | acts other | asks other | demands other | executes other => cases control.symm.trans other
  | attached other | failed other => cases quiet.symm.trans other
  | rejected other fails =>
    cases control.symm.trans other
    cases passes.symm.trans fails
  | late _ begun => exact begun ((run.pending_iff made).mpr ⟨bare, outside⟩)

theorem isLoaded_of_spares (run : Run allowed machine turns) (spares : machine.Spares m) :
    (machine.step.world.module m).isLoaded = (machine.world.module m).isLoaded := by
  cases old : (machine.world.module m).isLoaded with
  | true => exact Machine.isLoaded_step (World.mem_of_isLoaded old) old
  | false =>
    rw [← Bool.not_eq_true]
    intro loaded
    rcases run.loads_of_step old loaded with ⟨value, turn⟩ | commits
    · exact spares.turn_ne_completed value turn
    · exact run.not_commitsBare_of_spares spares commits

end Run

/-- In every run, each module has loaded exactly when its body came to its end or a commit passed its
check before it was given a body. -/
theorem loads_duly {machine : Machine σ} {turns : List (Turn σ)} (run : Run allowed machine turns)
    (m : ModuleId) : machine.LoadsDuly allowed m turns where
  loaded := run.isLoaded_iff m
  completed := run.completed_iff m
  pending := run.pending_iff
  stays _ precedes := Machine.isLoaded_of_precedes precedes
  loads := run.loads_of_step
  spared := run.isLoaded_of_spares

/-- Names are committed to a module that is never given a body, and to another one from inside its
factory and once more when it has its body. The other one is then asked to finish. -/
def committing : Program Unit :=
  Code.program do
    let bare ← Code.create [.named "x"] .standard
    let late ← Code.create [.named "y"] .standard
    let _ ← Code.commit bare [("x", .null)]
    let _ ← Code.executeStatements late (Code.commit late [("y", .null)])
      [fun m => Code.settle m "y" (.boolean true)]
    let _ ← Code.commit late [("y", .undefined)]
    Code.finish late

/-- The machine that runs the program, after so many transitions. -/
def committingAfter (count : Nat) : Machine Unit :=
  (Machine.start committing (.empty .standard ())).after count

theorem loads_duly_of_committing :
    let inside := committingAfter 5
    let outside := committingAfter 9
    let ended := committingAfter 18
    let turns := [] ++ (Machine.start committing (.empty .standard ())).turns 18
    (inside.world.module 1).state = .running ∧ (inside.step.world.module 1).isLoaded = false ∧
      (outside.world.module 1).state = .suspended ∧ (outside.step.world.module 1).isLoaded = false ∧
      (ended.world.module 0).isLoaded = true ∧ (¬ ∃ value, .completed 0 value ∈ turns) ∧
      (∃ earlier past, Run (fun _ => True) earlier past ∧ past ++ [earlier.turn] <+: turns ∧
        earlier.step.Precedes ended ∧ earlier.CommitsBare 0 past) ∧
      (ended.world.module 1).isLoaded = true ∧ ∃ value, .completed 1 value ∈ turns := by
  intro inside outside ended turns
  have run (count : Nat) : Run (fun _ => True) (committingAfter count) _ :=
    (Run.start .standard () trivial).after count
  have within : inside.Spares 1 := .late rfl nofun
  have after : outside.Spares 1 := .late rfl nofun
  have bare := loads_duly (run 18) 0
  have late := loads_duly (run 18) 1
  have bodiless : ¬ ∃ value, .completed 0 value ∈ turns := fun completed =>
    nomatch bare.completed.mp completed
  exact ⟨rfl, (loads_duly (run 5) 1).spared within, rfl, (loads_duly (run 9) 1).spared after, rfl,
    bodiless, (bare.loaded.mp rfl).resolve_left bodiless, late.loaded.mpr (.inl (late.completed.mpr rfl)),
    late.completed.mpr rfl⟩

end LiveBindings
