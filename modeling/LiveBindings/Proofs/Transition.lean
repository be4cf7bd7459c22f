import LiveBindings.Proofs.Surface
import LiveBindings.Proofs.Turn

namespace LiveBindings

variable {σ : Type}

namespace World

/-- Modules were made, names were written and modules have loaded, but no body has gone on. -/
structure Keeps (before after : World σ) : Prop where
  made : before.modules.length ≤ after.modules.length
  life : ∀ m ∈ before, (after.module m).life = (before.module m).life
  loaded : ∀ m ∈ before, (before.module m).isLoaded = true → (after.module m).isLoaded = true
  fresh : ∀ m ∈ after, m ∉ before → (after.module m).life = .fresh

theorem Writes.keeps {before after : World σ} (writes : before.Writes after) :
    before.Keeps after where
  made := writes.made
  life m member := by
    have same := congrArg Module.life (writes.core m member)
    exact same
  loaded m member loaded := by
    have same := congrArg Module.isLoaded (writes.core m member)
    exact Eq.trans same loaded
  fresh m member missing := by
    obtain ⟨names, config, same⟩ := writes.fresh m member missing
    have fresh := congrArg Module.life same
    exact fresh

theorem Keeps.of_modules_eq {before after : World σ} (same : after.modules = before.modules) :
    before.Keeps after := (Writes.of_modules_eq same).keeps

theorem Keeps.refl (world : World σ) : world.Keeps world := .of_modules_eq rfl

theorem Keeps.trans {first middle last : World σ} (early : first.Keeps middle)
    (late : middle.Keeps last) : first.Keeps last where
  made := Nat.le_trans early.made late.made
  life m member :=
    (late.life m (Nat.lt_of_lt_of_le member early.made)).trans (early.life m member)
  loaded m member loaded :=
    late.loaded m (Nat.lt_of_lt_of_le member early.made) (early.loaded m member loaded)
  fresh m member missing := by
    by_cases between : m ∈ middle
    · rw [late.life m between, early.fresh m between missing]
    · exact late.fresh m member between

theorem keeps_update (world : World σ) (m : ModuleId) {change : Module σ → Module σ}
    (life : (change (world.module m)).life = (world.module m).life)
    (loaded : (world.module m).isLoaded = true → (change (world.module m)).isLoaded = true) :
    world.Keeps (world.update m change) where
  made := Nat.le_of_eq (length_update world m change).symm
  life other member := by
    by_cases same : other = m
    · subst other
      rw [module_update_self change member, life]
    · rw [module_update_of_ne world same]
  loaded other member before := by
    by_cases same : other = m
    · subst other
      rw [module_update_self change member]
      exact loaded before
    · rwa [module_update_of_ne world same]
  fresh other member missing := by
    rw [mem_iff, length_update] at member
    exact absurd member missing

theorem keeps_record (world : World σ) (m : ModuleId) (event : Event) :
    world.Keeps (world.record m event) := (writes_record world m event).keeps

theorem keeps_load (world : World σ) (m : ModuleId) : world.Keeps (world.update m Module.load) :=
  keeps_update world m rfl fun _ => rfl

theorem keeps_enqueue (world : World σ) (m : ModuleId) {queue : List (Hook σ)}
    (code : ModuleId → Program σ) (waiting : (world.module m).hooks = some queue) :
    world.Keeps (world.enqueue m queue code) := by
  refine (keeps_update world m rfl fun loaded => ?_).trans (keeps_record _ m _)
  simp [Module.isLoaded, waiting] at loaded

end World

@[simp]
theorem holding_caller (next : Outcome → Program σ) (stack : List (Frame σ)) :
    holding (.caller next :: stack) = holding stack := rfl

namespace Machine

/-- A transition whose turn is known. Apart from the turn, the world only keeps what it had; the
frames that hold modules change as the turn says; and a body that ends leaves its module loaded. -/
structure Transition (turn : Turn σ) (before after : Machine σ) : Prop where
  enabled : turn.Enabled before.world
  keeps : (turn.apply before.world).Keeps after.world
  moves : turn.Moves (holding before.stack) (holding after.stack)
  loads : ∀ m value, turn = .completed m value → m ∈ before.world →
    (after.world.module m).isLoaded = true

theorem Transition.of_quiet {before after : Machine σ} (keeps : before.world.Keeps after.world)
    (same : holding after.stack = holding before.stack) : Transition .quiet before after where
  enabled := trivial
  keeps := keeps
  moves := by
    rw [same]
    exact .quiet
  loads m value impossible := by cases impossible

theorem keeps_runHooks (m : ModuleId) (after : After) (stack : List (Frame σ)) (world : World σ)
    (hooks : List (Hook σ)) : world.Keeps (runHooks m after stack world hooks).world := by
  unfold runHooks
  split
  · exact world.keeps_record m _
  · split
    · exact (Demand.writes_react ..).keeps
    · exact .refl world

theorem holding_runHooks (m : ModuleId) (after : After) (stack : List (Frame σ)) (world : World σ)
    (hooks : List (Hook σ)) :
    holding (runHooks m after stack world hooks).stack = holding stack := by
  unfold runHooks
  split
  · rfl
  · split <;> rfl

theorem keeps_load (m : ModuleId) (after : After) (stack : List (Frame σ)) (world : World σ) :
    world.Keeps (load m after stack world).world := by
  unfold load
  split
  · exact keeps_runHooks ..
  · exact ((world.keeps_load m).trans (World.keeps_record _ m _)).trans (keeps_runHooks ..)

theorem holding_load (m : ModuleId) (after : After) (stack : List (Frame σ)) (world : World σ) :
    holding (load m after stack world).stack = holding stack := by
  unfold load
  split <;> exact holding_runHooks ..

theorem isLoaded_load {m : ModuleId} {world : World σ} (made : m ∈ world) (after : After)
    (stack : List (Frame σ)) : ((load m after stack world).world.module m).isLoaded = true := by
  unfold load
  split
  · next loaded => exact (keeps_runHooks ..).loaded m made (by simp [Module.isLoaded, loaded])
  · refine (keeps_runHooks ..).loaded m ?_ ?_
    · rwa [World.mem_iff, World.modules_record, World.length_update]
    · rw [World.module_record, World.module_update_self _ made]
      rfl

theorem transition_resumeFrame (stack : List (Frame σ)) (world : World σ) (frame : Frame σ)
    (outcome : Outcome) :
    Transition (frame.turn outcome) ⟨.answer outcome, frame :: stack, world⟩
      (resumeFrame stack world frame outcome) := by
  cases frame with
  | caller next => exact .of_quiet (.refl world) rfl
  | hooks m rest after =>
    cases outcome with
    | panicked message => exact .of_quiet (.refl world) rfl
    | failed cause => exact .of_quiet (keeps_runHooks ..) (holding_runHooks ..)
    | returned value => exact .of_quiet (keeps_runHooks ..) (holding_runHooks ..)
  | building m body =>
    have attached : Transition (.attached m body) ⟨.answer outcome, .building m body :: stack, world⟩
        ⟨.demand (.wildcards m), stack,
          (world.update m (·.attach body)).record m (.executing m (world.module m).wildcards)⟩ :=
      ⟨trivial, World.keeps_record _ m _, .attached, fun _ _ impossible => by cases impossible⟩
    cases outcome with
    | panicked message =>
      exact ⟨trivial, .refl _, .dropped, fun _ _ impossible => by cases impossible⟩
    | failed cause => exact attached
    | returned value => exact attached
  | stepping m verdict demand =>
    cases outcome with
    | panicked message =>
      exact ⟨trivial, .refl _, .unwound, fun _ _ impossible => by cases impossible⟩
    | failed cause =>
      refine ⟨trivial, ?_, .failed, fun _ _ impossible => by cases impossible⟩
      exact (World.keeps_record _ m _).trans (Demand.writes_react ..).keeps
    | returned value =>
      cases report : verdict value with
      | yield =>
        simp only [Frame.turn, resumeFrame, report]
        exact ⟨trivial, (Demand.writes_react ..).keeps, .yielded report,
          fun _ _ impossible => by cases impossible⟩
      | complete =>
        simp only [Frame.turn, resumeFrame, report]
        refine ⟨trivial, (World.keeps_record _ m _).trans (keeps_load ..), ?_, ?_⟩
        · rw [holding_load]
          exact .completed report
        · intro other value same made
          cases same
          exact isLoaded_load (by rwa [World.mem_iff, World.modules_record, World.length_update]) ..

theorem transition_advance (demand : Demand) (m : ModuleId) (stack : List (Frame σ))
    (world : World σ) :
    Transition (world.turn m) ⟨.demand demand, stack, world⟩ (advance demand m stack world) := by
  unfold World.turn advance
  split
  · exact .of_quiet ((world.keeps_record m _).trans (Demand.writes_react ..).keeps) rfl
  · next free =>
    cases readiness : (world.module m).slot.readiness with
    | failed cause => exact .of_quiet (Demand.writes_react ..).keeps rfl
    | idle => exact .of_quiet (Demand.writes_react ..).keeps rfl
    | exhausted => exact .of_quiet (Demand.writes_react ..).keeps rfl
    | ready body =>
      refine ⟨⟨Bool.not_eq_true _ ▸ free, readiness⟩, World.keeps_record _ m _, .began, ?_⟩
      intro _ _ impossible
      cases impossible

theorem transition_execute (m : ModuleId) (factory : Program σ) (code : Nat → ModuleId → Program σ)
    (ending : Ending) (next : Outcome → Program σ) (stack : List (Frame σ)) (world : World σ) :
    Transition (turn ⟨.run (.execute m factory code ending next), stack, world⟩)
      ⟨.run (.execute m factory code ending next), stack, world⟩
      (execute m factory ⟨0, code, ending⟩ next stack world) := by
  simp only [turn, execute]
  split
  · next free => exact ⟨free, .refl _, .making, fun _ _ impossible => by cases impossible⟩
  · exact .of_quiet (.refl world) rfl

theorem keeps_commit (m : ModuleId) (entries : List (String × Value)) (next : Outcome → Program σ)
    (stack : List (Frame σ)) (world : World σ) :
    world.Keeps (commit m entries next stack world).world := by
  rw [commit_eq]
  split
  · exact .refl world
  · have settled (event : Event) : world.Keeps ((world.record m event).settleAll m entries) :=
      (world.keeps_record m event).trans (World.writes_settleAll _ m entries).keeps
    dsimp only
    split
    · exact (settled _).trans (keeps_load ..)
    · exact (settled _).trans (keeps_load ..)
    · exact settled _

theorem holding_commit (m : ModuleId) (entries : List (String × Value)) (next : Outcome → Program σ)
    (stack : List (Frame σ)) (world : World σ) :
    holding (commit m entries next stack world).stack = holding stack := by
  rw [commit_eq]
  split
  · rfl
  · dsimp only
    split
    · rw [holding_load, holding_caller]
    · rw [holding_load, holding_caller]
    · rfl

theorem transition_importer (m : ModuleId) (hook : ModuleId → Program σ)
    (next : Outcome → Program σ) (stack : List (Frame σ)) (world : World σ) (control : Control σ) :
    Transition .quiet ⟨control, stack, world⟩ (importer m hook next stack world) := by
  unfold importer
  split
  · next waiting => exact .of_quiet (world.keeps_enqueue m hook waiting) rfl
  · refine .of_quiet ?_ ?_
    · exact (world.keeps_update m rfl fun _ => rfl).trans (keeps_runHooks ..)
    · rw [holding_runHooks, holding_caller]

theorem transition_call (callee : Value) (arguments : List Value) (next : Outcome → Program σ)
    (stack : List (Frame σ)) (world : World σ) (control : Control σ) :
    Transition .quiet ⟨control, stack, world⟩ (call callee arguments next stack world) := by
  unfold call
  split
  · split <;> exact .of_quiet (.refl world) rfl
  · exact .of_quiet (.refl world) rfl

theorem transition_resume (id : BodyId) (m : ModuleId) (next : Outcome → Program σ)
    (stack : List (Frame σ)) (world : World σ) (control : Control σ) :
    Transition .quiet ⟨control, stack, world⟩ (resume id m next stack world) := by
  unfold resume
  split
  · exact .of_quiet (.of_modules_eq rfl) rfl
  · exact .of_quiet (.refl world) rfl

theorem transition_demand (demand : Demand) (stack : List (Frame σ)) (world : World σ) :
    Transition (turn ⟨.demand demand, stack, world⟩) ⟨.demand demand, stack, world⟩
      (stepDemand stack world demand) := by
  simp only [turn, stepDemand]
  cases awaited : demand.awaited? world with
  | none => exact .of_quiet (Demand.writes_proceed ..).keeps rfl
  | some m => exact transition_advance demand m stack world

theorem transition_program (program : Program σ) (stack : List (Frame σ)) (world : World σ) :
    Transition (turn ⟨.run program, stack, world⟩) ⟨.run program, stack, world⟩
      (stepProgram stack world program) := by
  cases program with
  | done outcome =>
    cases stack with
    | nil => exact .of_quiet (.refl world) rfl
    | cons frame rest => exact transition_resumeFrame rest world frame outcome
  | execute m factory code ending next => exact transition_execute ..
  | host change next => exact .of_quiet (.of_modules_eq rfl) rfl
  | act action next => exact .of_quiet (action.writes_perform world).keeps rfl
  | demand demand next => exact .of_quiet (.refl world) rfl
  | commit m entries next => exact .of_quiet (keeps_commit ..) (holding_commit ..)
  | importer m hook next => exact transition_importer ..
  | function name code next => exact .of_quiet (.of_modules_eq rfl) rfl
  | call callee arguments next => exact transition_call ..
  | detach code ending next => exact .of_quiet (.of_modules_eq rfl) rfl
  | resume id m next => exact transition_resume ..
  | remaining id next => exact .of_quiet (.refl world) rfl

/-- Every transition does what its turn says. -/
theorem transition (machine : Machine σ) : Transition machine.turn machine machine.step := by
  obtain ⟨control, stack, world⟩ := machine
  cases control with
  | run program => exact transition_program program stack world
  | demand demand => exact transition_demand demand stack world

theorem made_of_made {machine : Machine σ} {m : ModuleId} (made : m ∈ machine.world) :
    m ∈ machine.step.world := by
  refine Nat.lt_of_lt_of_le ?_ machine.transition.keeps.made
  unfold Turn.apply
  cases machine.turn.about? with
  | none => exact made
  | some other => rwa [Option.elim_some, World.length_update]

theorem life_step_of_about {machine : Machine σ} {m : ModuleId} (made : m ∈ machine.world)
    (about : machine.turn.about? = some m) :
    (machine.step.world.module m).life = (machine.turn.change (machine.world.module m)).life := by
  have life := machine.transition.keeps.life m
  rw [Turn.apply, about, Option.elim_some, World.module_update_self _ made] at life
  exact life (by rwa [World.mem_iff, World.length_update])

theorem life_step_of_not_about {machine : Machine σ} {m : ModuleId} (made : m ∈ machine.world)
    (about : machine.turn.about? ≠ some m) :
    (machine.step.world.module m).life = (machine.world.module m).life := by
  have life := machine.transition.keeps.life m
  unfold Turn.apply at life
  cases subject : machine.turn.about? with
  | none =>
    rw [subject] at life
    exact life made
  | some other =>
    have differs : m ≠ other := fun same => about (same ▸ subject)
    rw [subject, Option.elim_some, World.module_update_of_ne _ differs] at life
    exact life (by rwa [World.mem_iff, World.length_update])

theorem isLoaded_step {machine : Machine σ} {m : ModuleId} (made : m ∈ machine.world)
    (loaded : (machine.world.module m).isLoaded = true) :
    (machine.step.world.module m).isLoaded = true := by
  have keeps := machine.transition.keeps.loaded m
  unfold Turn.apply at keeps
  cases subject : machine.turn.about? with
  | none =>
    rw [subject] at keeps
    exact keeps made loaded
  | some other =>
    rw [subject, Option.elim_some] at keeps
    refine keeps (by rwa [World.mem_iff, World.length_update]) ?_
    by_cases same : m = other
    · subst other
      rwa [World.module_update_self _ made, Turn.isLoaded_change]
    · rwa [World.module_update_of_ne _ same]

/-- A module that a transition makes has the life of one that was given no body. -/
theorem life_step_of_not_mem {machine : Machine σ} {m : ModuleId} (made : m ∈ machine.step.world)
    (missing : m ∉ machine.world) : (machine.step.world.module m).life = .fresh := by
  refine machine.transition.keeps.fresh m made fun member => missing ?_
  unfold Turn.apply at member
  cases subject : machine.turn.about? with
  | none => rwa [subject] at member
  | some other =>
    rw [subject, Option.elim_some, World.mem_iff, World.length_update] at member
    exact member

/-- A resumption begins when a demand asks for it, and its code then runs above a frame that holds
the module. -/
theorem step_of_began {machine : Machine σ} {m : ModuleId} {body : Body σ}
    (began : machine.turn = .began m body) :
    ∃ demand, machine.control = .demand demand ∧ machine.step.control = .run (body.next m) ∧
      machine.step.stack = .stepping m body.verdict demand :: machine.stack := by
  obtain ⟨control, stack, world⟩ := machine
  cases control with
  | demand demand =>
    cases awaited : demand.awaited? world with
    | none => simp [turn, awaited] at began
    | some other =>
      simp only [turn, awaited, Option.elim_some, World.turn] at began
      split at began
      · cases began
      · next free =>
        split at began
        · next atSlot =>
          cases began
          refine ⟨demand, rfl, ?_, ?_⟩ <;> simp [step, stepDemand, advance, awaited, free, atSlot]
        · cases began
  | run program =>
    cases program with
    | done outcome =>
      cases stack with
      | nil => cases began
      | cons frame rest => exact absurd began (frame.turn_ne_began outcome m body)
    | execute =>
      simp only [turn] at began
      split at began <;> cases began
    | _ => cases began

/-- A resumption ends with the outcome of the control, which the frame that holds the module
receives. -/
theorem control_of_outcome? {machine : Machine σ} {outcome : Outcome}
    (ended : machine.turn.outcome? = some outcome) :
    machine.control = .answer outcome ∧
      ∃ frame rest, machine.stack = frame :: rest ∧ frame.owner? = machine.turn.about? := by
  obtain ⟨control, stack, world⟩ := machine
  cases control with
  | demand demand =>
    cases awaited : demand.awaited? world with
    | none => simp [turn, awaited, Turn.outcome?] at ended
    | some other =>
      simp only [turn, awaited, Option.elim_some, World.turn] at ended
      split at ended
      · cases ended
      · split at ended <;> cases ended
  | run program =>
    cases program with
    | done result =>
      cases stack with
      | nil => cases ended
      | cons frame rest =>
        obtain ⟨rfl, owner⟩ := frame.outcome?_turn ended
        exact ⟨rfl, frame, rest, rfl, owner⟩
    | execute =>
      simp only [turn] at ended
      split at ended <;> cases ended
    | _ => cases ended

end Machine

end LiveBindings
