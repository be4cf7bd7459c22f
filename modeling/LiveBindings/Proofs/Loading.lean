import LiveBindings.Proofs.Calls
import LiveBindings.Proofs.Change

namespace LiveBindings

variable {σ : Type} {allowed : Program σ → Prop}

namespace Machine

variable {world : World σ} {m : ModuleId}

theorem mem_runHooks {n : ModuleId} {rest : List (Hook σ)} {after later : After}
    {stack : List (Frame σ)} {hooks : List (Hook σ)}
    (member : .hooks n rest later ∈ (runHooks m after stack world hooks).stack) :
    n = m ∧ hooks ≠ [] ∨ .hooks n rest later ∈ stack := by
  unfold runHooks at member
  split at member
  · rcases List.mem_cons.mp member with same | below
    · cases same
      exact .inl ⟨rfl, List.cons_ne_nil _ _⟩
    · exact .inr below
  · split at member <;> exact .inr member

theorem mem_load {n : ModuleId} {rest : List (Hook σ)} {after later : After}
    {stack : List (Frame σ)} (member : .hooks n rest later ∈ (load m after stack world).stack) :
    ((load m after stack world).world.module n).isLoaded = true ∨ .hooks n rest later ∈ stack := by
  cases waiting : (world.module m).hooks with
  | none =>
    simp only [load, waiting] at member
    rcases mem_runHooks member with ⟨_, some⟩ | below
    · exact absurd rfl some
    · exact .inr below
  | some queue =>
    have run := member
    simp only [load, waiting] at run
    rcases mem_runHooks run with ⟨rfl, some⟩ | below
    · exact .inl (isLoaded_load (World.mem_of_hooks waiting some) after stack)
    · exact .inr below

theorem mem_resumeFrame {n : ModuleId} {rest : List (Hook σ)} {later : After}
    {stack : List (Frame σ)} {frame : Frame σ} {outcome : Outcome}
    (member : .hooks n rest later ∈ (resumeFrame stack world frame outcome).stack) :
    ((resumeFrame stack world frame outcome).world.module n).isLoaded = true ∨
      ∃ rest later, .hooks n rest later ∈ frame :: stack := by
  have below (inside : .hooks n rest later ∈ stack) :
      ∃ rest later, .hooks n rest later ∈ frame :: stack :=
    ⟨rest, later, List.mem_cons_of_mem _ inside⟩
  cases frame with
  | caller next => exact .inr (below member)
  | building m body => cases outcome <;> exact .inr (below member)
  | hooks m queue after =>
    have runs (inside : .hooks n rest later ∈ (runHooks m after stack world queue).stack) :
        ∃ rest later, .hooks n rest later ∈ .hooks m queue after :: stack := by
      rcases mem_runHooks inside with ⟨rfl, _⟩ | inside
      · exact ⟨queue, after, List.mem_cons_self⟩
      · exact below inside
    cases outcome with
    | panicked message => exact .inr (below member)
    | failed cause => exact .inr (runs member)
    | returned value => exact .inr (runs member)
  | stepping m verdict demand =>
    cases outcome with
    | panicked message => exact .inr (below member)
    | failed cause => exact .inr (below member)
    | returned value =>
      cases report : verdict value with
      | yield =>
        simp only [resumeFrame, report] at member
        exact .inr (below member)
      | complete =>
        simp only [resumeFrame, report] at member ⊢
        exact (mem_load member).imp_right below

theorem loaded_of_mem_program {n : ModuleId} {rest : List (Hook σ)} {later : After}
    {program : Program σ} {stack : List (Frame σ)}
    (member : .hooks n rest later ∈ (stepProgram stack world program).stack) :
    ((stepProgram stack world program).world.module n).isLoaded = true ∨
      (world.module n).isLoaded = true ∨ ∃ rest later, .hooks n rest later ∈ stack := by
  have below {next : Outcome → Program σ} (inside : .hooks n rest later ∈ .caller next :: stack) :
      ∃ rest later, .hooks n rest later ∈ stack := by
    rcases List.mem_cons.mp inside with same | inside
    · cases same
    · exact ⟨rest, later, inside⟩
  have same (inside : .hooks n rest later ∈ stack) : ∃ rest later, .hooks n rest later ∈ stack :=
    ⟨rest, later, inside⟩
  cases program with
  | done outcome =>
    cases stack with
    | nil => cases member
    | cons frame stack => exact (mem_resumeFrame member).imp_right .inr
  | commit m entries next =>
    simp only [stepProgram, commit_eq] at member ⊢
    split at member
    · exact .inr (.inr (same member))
    · split at member
      · exact (mem_load member).imp_right fun inside => .inr (below inside)
      · exact (mem_load member).imp_right fun inside => .inr (below inside)
      · exact .inr (.inr (same member))
  | execute m factory code ending next =>
    simp only [stepProgram, execute] at member
    split at member
    · rcases List.mem_cons.mp member with same | inside
      · cases same
      · exact .inr (.inr (below inside))
    · exact .inr (.inr (same member))
  | importer m hook next =>
    simp only [stepProgram, importer] at member
    split at member
    · exact .inr (.inr (same member))
    · next none =>
      rcases mem_runHooks member with ⟨rfl, _⟩ | inside
      · exact .inr (.inl (by simp [Module.isLoaded, none]))
      · exact .inr (.inr (below inside))
  | call callee arguments next =>
    simp only [stepProgram, call] at member
    split at member
    · split at member
      · exact .inr (.inr (below member))
      · exact .inr (.inr (same member))
    · exact .inr (.inr (same member))
  | resume id m next =>
    simp only [stepProgram, resume] at member
    split at member
    · exact .inr (.inr (below member))
    · exact .inr (.inr (same member))
  | demand demand next => exact .inr (.inr (below member))
  | host | act | function | detach | remaining => exact .inr (.inr (same member))

theorem Tended.step {machine : Machine σ} (tended : machine.Tended) : machine.step.Tended := by
  intro m rest after member
  have kept (loaded : (machine.world.module m).isLoaded = true) :
      (machine.step.world.module m).isLoaded = true :=
    isLoaded_step (World.mem_of_isLoaded loaded) loaded
  obtain ⟨control, stack, world⟩ := machine
  cases control with
  | run program =>
    rcases loaded_of_mem_program member with loaded | loaded | ⟨queue, later, inside⟩
    · exact loaded
    · exact kept loaded
    · exact kept (tended m queue later inside)
  | demand demand =>
    refine kept (tended m rest after ?_)
    change .hooks m rest after ∈ (stepDemand stack world demand).stack at member
    unfold stepDemand at member
    split at member
    · unfold advance at member
      split at member
      · exact member
      · split at member
        · exact member
        · exact member
        · exact member
        · rcases List.mem_cons.mp member with same | below
          · cases same
          · exact below
    · exact member

end Machine

theorem Run.tended {machine : Machine σ} {turns : List (Turn σ)} (run : Run allowed machine turns) :
    machine.Tended := by
  induction run with
  | start | next => exact fun _ _ _ member => absurd member List.not_mem_nil
  | step _ ih => exact ih.step

/-- A relation between worlds that every turn and every change obeys. -/
structure World.Obeyed (relation : World σ → World σ → Prop) : Prop where
  refl : ∀ world, relation world world
  trans : ∀ {early middle late}, relation early middle → relation middle late → relation early late
  turn : ∀ (turn : Turn σ) world, relation world (turn.apply world)
  change : ∀ {before after : World σ}, before.Change after → relation before after

section

variable {machine later : Machine σ} {turns : List (Turn σ)} {relation : World σ → World σ → Prop}

/-- What every turn and every change does, every transition does. -/
theorem World.Obeyed.step (obeyed : World.Obeyed relation) (tended : machine.Tended) :
    relation machine.world machine.step.world := by
  have changes := Machine.changes_step tended
  refine obeyed.trans (obeyed.turn machine.turn machine.world) ?_
  generalize machine.step.world = final at changes
  induction changes with
  | refl => exact obeyed.refl _
  | tail _ last ih => exact obeyed.trans ih (obeyed.change last)

theorem World.Obeyed.reaches (obeyed : World.Obeyed relation) (tended : machine.Tended)
    (reach : machine.Reaches later) : relation machine.world later.world := by
  induction reach with
  | refl machine => exact obeyed.refl machine.world
  | step _ ih => exact obeyed.trans (obeyed.step tended) (ih tended.step)

/-- Nothing waits below a control that comes to an end of its own. -/
theorem World.Obeyed.ends {control : Control σ} {outcome : Outcome} {before after : World σ}
    (obeyed : World.Obeyed relation) (ends : control.Ends before outcome after) :
    relation before after := by
  have tended : Machine.Tended ⟨control, [], before⟩ := fun _ _ _ member =>
    absurd member List.not_mem_nil
  exact obeyed.reaches tended (ends [])

theorem World.Obeyed.precedes (obeyed : World.Obeyed relation) (run : Run allowed machine turns)
    (precedes : machine.Precedes later) : relation machine.world later.world := by
  induction precedes with
  | refl => exact obeyed.refl machine.world
  | next _ _ _ ih => exact ih
  | step precedes ih =>
    obtain ⟨_, between⟩ := precedes.run run.weaken
    exact obeyed.trans ih (obeyed.step between.tended)

/-- What every turn and every change keeps holds in every run. -/
theorem Run.holds (run : Run allowed machine turns) (property : World σ → Prop)
    (empty : ∀ template host, property (.empty template host))
    (turn : ∀ (turn : Turn σ) world, property world → property (turn.apply world))
    (change : ∀ {before after : World σ}, before.Change after → property before → property after) :
    property machine.world := by
  have kept : World.Obeyed fun before after : World σ => property before → property after :=
    ⟨fun _ holds => holds, fun early late holds => late (early holds), turn, change⟩
  induction run with
  | start template host => exact empty template host
  | next _ _ _ ih => exact ih
  | step run ih => exact kept.step run.tended ih

end

namespace Turn

/-- What the change of a turn keeps of a module is kept of every module. -/
theorem congr_apply {α : Type} (part : Module σ → α) (turn : Turn σ) (world : World σ)
    (m : ModuleId) (keeps : ∀ module, part (turn.change module) = part module) :
    part ((turn.apply world).module m) = part (world.module m) := by
  unfold apply
  cases turn.about? with
  | none => rfl
  | some n => exact World.congr_update part world n m turn.change keeps

theorem length_apply (turn : Turn σ) (world : World σ) :
    (turn.apply world).modules.length = world.modules.length := by
  unfold apply
  cases turn.about? with
  | none => rfl
  | some n => exact World.length_update world n turn.change

theorem journal_apply (turn : Turn σ) (world : World σ) :
    (turn.apply world).journal = world.journal := by
  unfold apply
  cases turn.about? <;> rfl

end Turn

theorem World.mem_journal_record {world : World σ} {m : ModuleId} {event other : Event}
    (member : other ∈ (world.record m event).journal) : other = event ∨ other ∈ world.journal := by
  unfold record at member
  split at member
  · exact List.mem_cons.mp member
  · exact .inr member

theorem World.Change.started_of_mem {before after : World σ} {m : ModuleId} {ticket : Nat}
    (change : before.Change after) (started : .hookStarted m ticket ∈ after.journal) :
    .hookStarted m ticket ∈ before.journal ∨ (before.module m).isLoaded = true := by
  have noted {world : World σ} {n : ModuleId} {event : Event}
      (member : .hookStarted m ticket ∈ (world.record n event).journal)
      (same : world.journal = before.journal) (differs : event ≠ .hookStarted m ticket) :
      .hookStarted m ticket ∈ before.journal ∨ (before.module m).isLoaded = true := by
    rcases mem_journal_record member with event | old
    · exact absurd event.symm differs
    · exact .inl (same ▸ old)
  cases change with
  | aside _ journal => exact .inl (journal ▸ started)
  | noted plain =>
    rcases List.mem_cons.mp started with rfl | old
    · cases plain
    · exact .inl old
  | created => exact .inl started
  | settled => exact noted started rfl nofun
  | merged => exact noted started rfl nofun
  | forwarded => exact noted started rfl nofun
  | loaded => exact noted started rfl nofun
  | queued => exact noted started rfl nofun
  | registered => exact .inl started
  | started other loaded =>
    rcases mem_journal_record started with same | old
    · cases same
      exact .inr loaded
    · exact .inl old

/-- A hook that has begun to run is one of a module that has loaded. -/
theorem Run.isLoaded_of_started {machine : Machine σ} {turns : List (Turn σ)} {m : ModuleId}
    {ticket : Nat} (run : Run allowed machine turns)
    (started : .hookStarted m ticket ∈ machine.world.journal) :
    (machine.world.module m).isLoaded = true := by
  refine run.holds (fun world => .hookStarted m ticket ∈ world.journal →
    (world.module m).isLoaded = true) ?_ ?_ ?_ started
  · intro template host impossible
    cases impossible
  · intro turn world holds
    rwa [turn.journal_apply, turn.congr_apply Module.isLoaded world m turn.isLoaded_change]
  · intro before after change holds member
    have loaded : (before.module m).isLoaded = true :=
      (change.started_of_mem member).elim holds id
    exact change.keeps.loaded m (World.mem_of_isLoaded loaded) loaded

end LiveBindings
