import LiveBindings.Proofs.Calls
import LiveBindings.Proofs.Growth

namespace LiveBindings

open Machine

variable {σ : Type}

/-- What a slot has that answers in the given way. -/
def Readiness.slot : Readiness σ → Slot σ
  | .ready body => ⟨some body, .suspended, none⟩
  | .idle => .empty
  | .exhausted => ⟨none, .completed, none⟩
  | .failed cause => ⟨none, .failed, some cause⟩

namespace World

/-- The world in which a resumption of a module's body begins. -/
def begun (world : World σ) (m : ModuleId) (body : Body σ) : World σ :=
  (world.update m (·.resumed body)).record m (.resuming m ((world.module m).steps + 1))

/-- A resumption of a module's body, from where it begins to its outcome. -/
structure Resumes (world : World σ) (m : ModuleId) (body : Body σ) (outcome : Outcome)
    (later : World σ) : Prop where
  enabled : (Turn.began m body).Enabled world
  ends : (Control.run (body.next m)).Ends (world.begun m body) outcome later

/-- A module's hooks run one after another, and none of them panics. -/
inductive RunsHooks (m : ModuleId) : World σ → List (Hook σ) → World σ → Prop
  | nil {world} : RunsHooks m world [] world
  | cons {world middle later hook rest outcome} :
      (Control.run (hook.code m)).Ends (world.record m (.hookStarted m hook.ticket)) outcome
        middle →
      outcome.Calm → RunsHooks m middle rest later → RunsHooks m world (hook :: rest) later

inductive Loads (m : ModuleId) (world : World σ) : World σ → Prop
  | already : (world.module m).hooks = none → Loads m world world
  | now {queue later} : (world.module m).hooks = some queue →
      RunsHooks m ((world.update m Module.load).record m (.hooksRun m queue.length)) queue later →
      Loads m world later

/-- A module is asked to go on, and nothing panics: what comes of it, and the world that it leaves. -/
inductive Goes (world : World σ) (m : ModuleId) : Progress → World σ → Prop
  | refused : (world.module m).held = true → Goes world m .busy (world.record m (.refused m))
  | broken {cause} : (world.module m).held = false →
      (world.module m).slot.readiness = .failed cause →
      Goes world m (.failed (.failed (world.label m) cause)) world
  | idle : (world.module m).held = false → (world.module m).slot.readiness = .idle →
      Goes world m .idle world
  | exhausted : (world.module m).held = false → (world.module m).slot.readiness = .exhausted →
      Goes world m .exhausted world
  | yielded {body value ran} : world.Resumes m body (.returned value) ran →
      body.verdict value = .yield → Goes world m .stepped (ran.update m Module.yield)
  | completed {body value ran later} : world.Resumes m body (.returned value) ran →
      body.verdict value = .complete →
      Loads m ((ran.update m Module.complete).record m (.completed m (ran.module m).steps)) later →
      Goes world m .stepped later
  | failed {body cause ran} : world.Resumes m body (.failed cause) ran →
      Goes world m (.failed (.failed (ran.label m) cause))
        ((ran.update m (·.fail cause)).record m (.bodyFailed m cause))

variable {world later : World σ} {m : ModuleId} {progress : Progress} {body : Body σ}
  {outcome : Outcome}

/-- A hook that does not panic is followed by the hooks after it. -/
theorem reaches_runHooks {hook : Hook σ}
    (ends : (Control.run (hook.code m)).Ends (world.record m (.hookStarted m hook.ticket)) outcome later)
    (calm : outcome.Calm) (after : After) (stack : List (Frame σ)) (rest : List (Hook σ)) :
    Reaches (runHooks m after stack world (hook :: rest)) (runHooks m after stack later rest) := by
  refine (ends (.hooks m rest after :: stack)).then ?_
  cases outcome with
  | panicked message => exact absurd rfl (calm message)
  | failed | returned => rfl

theorem RunsHooks.reaches {hooks : List (Hook σ)} (runs : RunsHooks m world hooks later)
    (after : After) (stack : List (Frame σ)) :
    Reaches (runHooks m after stack world hooks) (runHooks m after stack later []) := by
  induction runs with
  | nil => exact .refl _
  | @cons world middle later hook rest outcome ends calm _ ih =>
    exact (reaches_runHooks ends calm after stack rest).trans ih

theorem Loads.reaches (loads : Loads m world later) (after : After) (stack : List (Frame σ)) :
    Reaches (load m after stack world) (runHooks m after stack later []) := by
  cases loads with
  | already loaded =>
    simp only [load, loaded]
    exact .refl _
  | now waiting runs =>
    simp only [load, waiting]
    exact runs.reaches after stack

theorem Resumes.advance_eq (resumes : world.Resumes m body outcome later) (demand : Demand)
    (stack : List (Frame σ)) : advance demand m stack world =
      ⟨.run (body.next m), .stepping m body.verdict demand :: stack, world.begun m body⟩ := by
  obtain ⟨⟨free, ready⟩, _⟩ := resumes
  simp only [advance, free, ready]
  rfl

theorem Resumes.reaches (resumes : world.Resumes m body outcome later) (demand : Demand)
    (stack : List (Frame σ)) : Reaches (advance demand m stack world)
      ⟨.answer outcome, .stepping m body.verdict demand :: stack, later⟩ := by
  rw [resumes.advance_eq]
  exact resumes.ends _

/-- A resumption after which the body has ended is followed by the loading of its module. -/
theorem Resumes.reaches_load {value : Value} (resumes : world.Resumes m body (.returned value) later)
    (report : body.verdict value = .complete) (demand : Demand) (stack : List (Frame σ)) :
    Reaches (advance demand m stack world) (load m (.goOn demand) stack
      ((later.update m Module.complete).record m (.completed m (later.module m).steps))) := by
  refine (resumes.reaches demand stack).then ?_
  simp only [step, Control.answer, stepProgram, resumeFrame, report]

/-- Whoever asks a module to go on is told of the same progress, in the same world. -/
theorem Goes.reaches (goes : world.Goes m progress later) (demand : Demand)
    (stack : List (Frame σ)) :
    Reaches (advance demand m stack world) (join stack (demand.react later progress)) := by
  cases goes with
  | refused held =>
    simp only [advance, held]
    exact .refl _
  | broken free ready =>
    simp only [advance, free, ready]
    exact .refl _
  | idle free ready =>
    simp only [advance, free, ready]
    exact .refl _
  | exhausted free ready =>
    simp only [advance, free, ready]
    exact .refl _
  | yielded resumes report =>
    refine (resumes.reaches demand stack).then ?_
    simp only [step, Control.answer, stepProgram, resumeFrame, report]
  | completed resumes report loads =>
    exact (resumes.reaches_load report demand stack).trans (loads.reaches (.goOn demand) stack)
  | failed resumes => exact (resumes.reaches demand stack).then rfl

theorem Resumes.grows (resumes : world.Resumes m body outcome later) : world.Grows later := by
  have began : world.Grows (world.update m (·.resumed body)) :=
    world.grows_update_of_surface m fun _ => rfl
  exact (began.trans (grows_record _ m _)).trans (resumes.ends []).grows

theorem Loads.grows (loads : Loads m world later) : world.Grows later :=
  (grows_load m (.answer .unit) [] world).trans (loads.reaches (.answer .unit) []).grows

theorem Goes.grows (goes : world.Goes m progress later) : world.Grows later := by
  have turned (ran : World σ) (turn : Turn σ) : ran.Grows (ran.update m turn.change) :=
    ran.grows_update_of_surface m fun module => module.surface_change turn
  cases goes with
  | refused => exact world.grows_record ..
  | broken | idle | exhausted => exact .refl world
  | @yielded body value ran resumes => exact resumes.grows.trans (turned ran (.yielded m value))
  | @completed body value ran later resumes report loads =>
    have ended := resumes.grows.trans (turned ran (.completed m value))
    exact (ended.trans (grows_record ..)).trans loads.grows
  | @failed body cause ran resumes =>
    have ended := resumes.grows.trans (turned ran (.failed m cause))
    exact ended.trans (grows_record ..)

variable {stack : List (Frame σ)}

theorem Loads.orderly (loads : Loads m world later) (orderly : Orderly world (holding stack)) :
    Orderly later (holding stack) := by
  have loaded := orderly.keeps (Machine.keeps_load m (.answer .unit) stack world)
  rw [← holding_load m (.answer .unit) stack world] at loaded
  exact (loads.reaches (.answer .unit) stack).orderly loaded

theorem Loads.life_of_final (loads : Loads m world later) (orderly : Orderly world (holding stack))
    (made : m ∈ world) (final : (world.module m).slot.state.isFinal = true) :
    (later.module m).life = (world.module m).life := by
  have keeps := Machine.keeps_load m (.answer .unit) stack world
  have same := keeps.life m made
  have loaded := orderly.keeps keeps
  rw [← holding_load m (.answer .unit) stack world] at loaded
  have kept := (loads.reaches (.answer .unit) stack).life_of_final loaded
    (Nat.lt_of_lt_of_le made keeps.made) (by rwa [Module.slot_of_life same])
  exact kept.trans same

theorem Resumes.orderly (resumes : world.Resumes m body outcome later)
    (orderly : Orderly world (holding stack)) (demand : Demand) :
    Orderly later (.stepping m body.verdict demand :: holding stack) := by
  have moves : (Turn.began m body).Moves (holding stack)
      (.stepping m body.verdict demand :: holding stack) := .began
  have resumed := (orderly.turn resumes.enabled moves).keeps
    (keeps_record _ m (.resuming m ((world.module m).steps + 1)))
  exact (resumes.ends (.stepping m body.verdict demand :: stack)).orderly resumed

/-- The frame of a resumption that ends takes its module with it. -/
theorem Resumes.orderly_apply (resumes : world.Resumes m body outcome later)
    (orderly : Orderly world (holding stack)) (turn : Turn σ) (enabled : turn.Enabled later)
    (moves : turn.Moves (.stepping m body.verdict (.finish m) :: holding stack) (holding stack)) :
    Orderly (turn.apply later) (holding stack) :=
  (resumes.orderly orderly (.finish m)).turn enabled moves

theorem Goes.orderly (goes : world.Goes m progress later) (orderly : Orderly world (holding stack)) :
    Orderly later (holding stack) := by
  cases goes with
  | refused => exact orderly.keeps (keeps_record ..)
  | broken | idle | exhausted => exact orderly
  | @yielded body value ran resumes report =>
    exact resumes.orderly_apply orderly (.yielded m value) trivial (.yielded report)
  | @completed body value ran later resumes report loads =>
    have ended := resumes.orderly_apply orderly (.completed m value) trivial
      (.completed report)
    exact loads.orderly (ended.keeps (keeps_record ..))
  | @failed body cause ran resumes =>
    have ended := resumes.orderly_apply orderly (.failed m cause) trivial .failed
    exact ended.keeps (keeps_record ..)

theorem slot_of_readiness (orderly : Orderly world (holding stack))
    (free : (world.module m).held = false) :
    (world.module m).slot = (world.module m).slot.readiness.slot := by
  have shaped := orderly.shaped m (mem_of_free free)
  generalize life : (world.module m).life = kept at shaped
  rw [show (world.module m).slot = kept.slot from congrArg Life.slot life]
  cases shaped <;> rfl

theorem Resumes.slot (resumes : world.Resumes m body outcome later)
    (orderly : Orderly world (holding stack)) :
    (world.module m).slot = ⟨some body, .suspended, none⟩ := by
  have slot := slot_of_readiness orderly resumes.enabled.1
  rwa [resumes.enabled.2] at slot

theorem Resumes.mem (resumes : world.Resumes m body outcome later) : m ∈ later :=
  resumes.grows.mem (mem_of_free resumes.enabled.1)

theorem Goes.of_idle (goes : world.Goes m .idle later) (orderly : Orderly world (holding stack)) :
    later = world ∧ (world.module m).slot = .empty := by
  cases goes with
  | idle free ready =>
    have slot := slot_of_readiness orderly free
    exact ⟨rfl, by rwa [ready] at slot⟩

theorem Goes.of_exhausted (goes : world.Goes m .exhausted later)
    (orderly : Orderly world (holding stack)) :
    later = world ∧ (world.module m).slot = ⟨none, .completed, none⟩ := by
  cases goes with
  | exhausted free ready =>
    have slot := slot_of_readiness orderly free
    exact ⟨rfl, by rwa [ready] at slot⟩

/-- A step is made by a body that waits, and it does not fail: the body waits again, or it ended. -/
theorem Goes.of_stepped (goes : world.Goes m .stepped later)
    (orderly : Orderly world (holding stack)) :
    (world.module m).slot.state = .suspended ∧
      ((later.module m).slot.state = .suspended ∨ (later.module m).slot.state = .completed) := by
  cases goes with
  | @yielded body value ran resumes report =>
    refine ⟨congrArg Slot.state (resumes.slot orderly), .inl ?_⟩
    rw [module_update_self _ resumes.mem]
    rfl
  | @completed body value ran later resumes report loads =>
    refine ⟨congrArg Slot.state (resumes.slot orderly), .inr ?_⟩
    have ended := (resumes.orderly_apply orderly (.completed m value) trivial
      (.completed report)).keeps (keeps_record _ m (.completed m (ran.module m).steps))
    have atEnd : (((ran.update m Module.complete).record m
        (.completed m (ran.module m).steps)).module m).slot.state = .completed := by
      rw [module_record, module_update_self _ resumes.mem]
      rfl
    have made : m ∈ (ran.update m Module.complete).record m
        (.completed m (ran.module m).steps) := by
      rw [mem_iff, modules_record, length_update]
      exact resumes.mem
    -- The hooks run after the body has ended, which they cannot change.
    have kept := loads.life_of_final ended made (by rw [atEnd]; rfl)
    rw [Module.slot_of_life kept]
    exact atEnd

/-- A module that cannot go on has failed, just now or before; it keeps the cause. -/
theorem Goes.of_failed {fault : Fault} (goes : world.Goes m (.failed fault) later)
    (orderly : Orderly world (holding stack)) :
    ∃ cause, (later.module m).slot = ⟨none, .failed, some cause⟩ ∧
      fault = .failed (world.label m) cause ∧
      (later = world ∨ (world.module m).slot.state = .suspended) := by
  cases goes with
  | @broken cause free ready =>
    have slot := slot_of_readiness orderly free
    exact ⟨cause, by rwa [ready] at slot, rfl, .inl rfl⟩
  | @failed body cause ran resumes =>
    refine ⟨cause, ?_, ?_, .inr (congrArg Slot.state (resumes.slot orderly))⟩
    · rw [module_record, module_update_self _ resumes.mem]
      rfl
    · rw [resumes.grows.label (mem_of_free resumes.enabled.1)]

theorem Goes.free (goes : world.Goes m progress later) (orderly : Orderly world (holding stack))
    (free : (world.module m).held = false) : (later.module m).held = false := by
  have made := mem_of_free free
  rw [← Bool.not_eq_true] at free ⊢
  intro held
  have owned := ((goes.orderly orderly).held m).mpr ⟨goes.grows.mem made, held⟩
  exact free ((orderly.held m).mp owned).2

end World

namespace Machine

variable {world last : World σ} {m : ModuleId} {outcome : Outcome} {limit : Nat}

theorem eq_of_panicked {message : String}
    (ends : run? limit ⟨.answer (.panicked message), [], world⟩ = some (outcome, last)) :
    outcome = .panicked message := by
  have same := (reaches_of_run? ends).eq_of_outcome? (outcome?_answer ..)
  cases same
  rfl

theorem exists_runsHooks {after : After} {hooks : List (Hook σ)}
    (ends : run? limit (runHooks m after [] world hooks) = some (outcome, last))
    (calm : outcome.Calm) : ∃ later rest, rest ≤ limit ∧ World.RunsHooks m world hooks later ∧
      run? rest (runHooks m after [] later []) = some (outcome, last) := by
  induction hooks generalizing limit world with
  | nil => exact ⟨world, limit, Nat.le_refl _, .nil, ends⟩
  | cons hook queue ih =>
    obtain ⟨inner, middle, rest, less, runs, answered⟩ := Control.exists_ends ends
    obtain ⟨rest', less', handed⟩ := run?_of_going rfl answered
    have quiet : inner.Calm := by
      rintro message rfl
      exact calm message (eq_of_panicked handed)
    have follows : run? rest' (runHooks m after [] middle queue) = some (outcome, last) := by
      cases inner with
      | panicked message => exact absurd rfl (quiet message)
      | failed cause => exact handed
      | returned value => exact handed
    obtain ⟨later, left, fewer, others, result⟩ := ih follows
    exact ⟨later, left, by omega, .cons runs quiet others, result⟩

theorem exists_loads {after : After}
    (ends : run? limit (load m after [] world) = some (outcome, last)) (calm : outcome.Calm) :
    ∃ later rest, rest ≤ limit ∧ World.Loads m world later ∧
      run? rest (runHooks m after [] later []) = some (outcome, last) := by
  unfold load at ends
  split at ends
  · next loaded => exact ⟨world, limit, Nat.le_refl _, .already loaded, ends⟩
  · next waiting =>
    obtain ⟨later, rest, less, runs, result⟩ := exists_runsHooks ends calm
    exact ⟨later, rest, less, .now waiting runs, result⟩

theorem exists_goes {demand : Demand}
    (ends : run? limit (advance demand m [] world) = some (outcome, last)) (calm : outcome.Calm) :
    ∃ progress later rest, rest ≤ limit ∧ world.Goes m progress later ∧
      run? rest (join [] (demand.react later progress)) = some (outcome, last) := by
  unfold advance at ends
  split at ends
  · next held => exact ⟨_, _, limit, Nat.le_refl _, .refused held, ends⟩
  · next notHeld =>
    have free := Bool.not_eq_true _ ▸ notHeld
    split at ends
    · next ready => exact ⟨_, _, limit, Nat.le_refl _, .broken free ready, ends⟩
    · next ready => exact ⟨_, _, limit, Nat.le_refl _, .idle free ready, ends⟩
    · next ready => exact ⟨_, _, limit, Nat.le_refl _, .exhausted free ready, ends⟩
    · next body ready =>
      obtain ⟨inner, ran, rest, less, runs, answered⟩ := Control.exists_ends ends
      obtain ⟨rest', less', handed⟩ := run?_of_going rfl answered
      have resumes : world.Resumes m body inner ran := ⟨⟨free, ready⟩, runs⟩
      cases inner with
      | panicked message => exact absurd (eq_of_panicked handed) (calm message)
      | failed cause => exact ⟨_, _, rest', by omega, .failed resumes, handed⟩
      | returned value =>
        simp only [step, Control.answer, stepProgram, resumeFrame] at handed
        cases report : body.verdict value with
        | yield =>
          simp only [report] at handed
          exact ⟨_, _, rest', by omega, .yielded resumes report, handed⟩
        | complete =>
          simp only [report] at handed
          obtain ⟨later, left, fewer, loads, result⟩ := exists_loads handed calm
          exact ⟨_, later, left, by omega, .completed resumes report loads, result⟩

end Machine

namespace Demand

/-- The steps that a module makes for a demand, one after another. -/
inductive Steps (demand : Demand) (m : ModuleId) : World σ → World σ → Prop
  | refl (world : World σ) : Steps demand m world world
  | step {world middle later : World σ} : demand.awaited? world = some m →
      world.Goes m .stepped middle → Steps demand m middle later → Steps demand m world later

/-- What a demand comes to when the module that it waits for makes no step more. -/
inductive Halts (demand : Demand) (m : ModuleId) (world : World σ) : Control σ × World σ → Prop
  | unawaited : demand.awaited? world = none → Halts demand m world (demand.proceed world)
  | still {progress later} : demand.awaited? world = some m → progress ≠ .stepped →
      world.Goes m progress later → Halts demand m world (demand.react later progress)

variable {demand : Demand} {m : ModuleId} {world middle later last : World σ} {outcome : Outcome}

theorem reaches_of_goes {progress : Progress} (awaited : demand.awaited? world = some m)
    (goes : world.Goes m progress later) (stack : List (Frame σ)) :
    Reaches ⟨.demand demand, stack, world⟩ (join stack (demand.react later progress)) :=
  .step (step_of_awaited awaited stack ▸ goes.reaches demand stack)

theorem Steps.reaches (steps : demand.Steps m world later) (stack : List (Frame σ)) :
    Reaches ⟨.demand demand, stack, world⟩ ⟨.demand demand, stack, later⟩ := by
  induction steps with
  | refl => exact .refl _
  | step awaited goes _ ih =>
    have stepped := reaches_of_goes awaited goes stack
    exact stepped.trans ih

theorem Steps.concat (steps : demand.Steps m world middle) (awaited : demand.awaited? middle = some m)
    (goes : middle.Goes m .stepped later) : demand.Steps m world later := by
  induction steps with
  | refl => exact .step awaited goes (.refl later)
  | step before went _ ih => exact .step before went (ih awaited goes)

theorem Halts.reaches {result : Control σ × World σ} (halts : demand.Halts m world result)
    (stack : List (Frame σ)) :
    Reaches ⟨.demand demand, stack, world⟩ (join stack result) := by
  cases halts with
  | unawaited awaited => exact .of_step (step_of_unawaited awaited stack)
  | still awaited _ goes => exact reaches_of_goes awaited goes stack

theorem Steps.ends {result : Control σ × World σ} (steps : demand.Steps m world middle)
    (halts : demand.Halts m middle result) (ends : result.1.Ends result.2 outcome last) :
    (Control.demand demand).Ends world outcome last :=
  ends.of_reaches fun stack => (steps.reaches stack).trans (halts.reaches stack)

/-- A demand for one module that ends has the module make steps, and then halts. -/
theorem exists_halts
    (only : ∀ world : World σ, demand.awaited? world = none ∨ demand.awaited? world = some m)
    (ends : (Control.demand demand).Ends world outcome last) (calm : outcome.Calm) :
    ∃ middle result, demand.Steps m world middle ∧ demand.Halts m middle result ∧
      result.1.Ends result.2 outcome last := by
  obtain ⟨limit, result⟩ := Control.ends_iff.mp ends
  clear ends
  -- After a step the same demand is left with a shorter run, however long the step's own code ran.
  induction limit using Nat.strongRecOn generalizing world with
  | ind limit shorter =>
    obtain ⟨rest, less, next⟩ := run?_of_going rfl result
    rcases only world with unawaited | awaited
    · rw [step_of_unawaited unawaited] at next
      exact ⟨world, _, .refl world, .unawaited unawaited, Control.ends_iff.mpr ⟨rest, next⟩⟩
    · rw [step_of_awaited awaited] at next
      obtain ⟨progress, later, left, fewer, goes, follows⟩ := exists_goes next calm
      by_cases stays : progress = .stepped
      · subst stays
        obtain ⟨middle, final, steps, halts, ends⟩ :=
          shorter left (Nat.lt_of_le_of_lt fewer less) follows
        exact ⟨middle, final, .step awaited goes steps, halts, ends⟩
      · exact ⟨world, _, .refl world, .still awaited stays goes, Control.ends_iff.mpr ⟨left, follows⟩⟩

section Orderly

variable {stack : List (Frame σ)}

theorem Steps.orderly (steps : demand.Steps m world later) (orderly : Orderly world (holding stack)) :
    Orderly later (holding stack) := by
  induction steps with
  | refl => exact orderly
  | step _ goes _ ih => exact ih (goes.orderly orderly)

theorem Steps.free (steps : demand.Steps m world later) (orderly : Orderly world (holding stack))
    (free : (world.module m).held = false) : (later.module m).held = false := by
  induction steps with
  | refl => exact free
  | step _ goes _ ih => exact ih (goes.orderly orderly) (goes.free orderly free)

theorem Steps.states (steps : demand.Steps m world later) (orderly : Orderly world (holding stack)) :
    later = world ∨ (world.module m).slot.state = .suspended ∧
      ((later.module m).slot.state = .suspended ∨ (later.module m).slot.state = .completed) := by
  induction steps with
  | refl => exact .inl rfl
  | step _ goes _ ih =>
    obtain ⟨waits, made⟩ := goes.of_stepped orderly
    rcases ih (goes.orderly orderly) with rfl | ⟨_, made⟩
    · exact .inr ⟨waits, made⟩
    · exact .inr ⟨waits, made⟩

/-- How a demand halts at a module that nobody holds. -/
inductive Stops (demand : Demand) (m : ModuleId) (world : World σ) : Control σ × World σ → Prop
  | unawaited : demand.awaited? world = none → Stops demand m world (demand.proceed world)
  | idle : demand.awaited? world = some m → world.Goes m .idle world →
      (world.module m).slot = .empty → Stops demand m world (demand.react world .idle)
  | exhausted : demand.awaited? world = some m → world.Goes m .exhausted world →
      (world.module m).slot = ⟨none, .completed, none⟩ →
      Stops demand m world (demand.react world .exhausted)
  | failed {cause later} : demand.awaited? world = some m →
      world.Goes m (.failed (.failed (world.label m) cause)) later →
      (later.module m).slot = ⟨none, .failed, some cause⟩ →
      Stops demand m world (demand.react later (.failed (.failed (world.label m) cause)))

theorem Halts.stops {result : Control σ × World σ} (halts : demand.Halts m world result)
    (orderly : Orderly world (holding stack)) (free : (world.module m).held = false) :
    demand.Stops m world result := by
  cases halts with
  | unawaited none => exact .unawaited none
  | @still progress later awaited stays goes =>
    cases progress with
    | stepped => exact absurd rfl stays
    | busy =>
      obtain ⟨held⟩ := goes
      cases held.symm.trans free
    | idle =>
      obtain ⟨rfl, slot⟩ := goes.of_idle orderly
      exact .idle awaited goes slot
    | exhausted =>
      obtain ⟨rfl, slot⟩ := goes.of_exhausted orderly
      exact .exhausted awaited goes slot
    | failed fault =>
      obtain ⟨cause, slot, rfl, _⟩ := goes.of_failed orderly
      exact .failed awaited goes slot

end Orderly

end Demand

end LiveBindings
