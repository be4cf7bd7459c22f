import LiveBindings.Proofs.Replay

namespace LiveBindings

open Machine

variable {σ : Type} {allowed : Program σ → Prop}

/-- Whether an event tells of the life of a module's body. -/
def Event.tellsBody (m : ModuleId) : Event → Bool
  | .executing n _ | .resuming n _ | .completed n _ | .bodyFailed n _ => n = m
  | _ => false

namespace World

/-- What the journal tells of the life of a module's body, the earliest first. -/
def annals (world : World σ) (m : ModuleId) : List Event :=
  (world.journal.filter (·.tellsBody m)).reverse

variable {m : ModuleId} {event : Event}

theorem annals_log (silent : event.tellsBody m = false) (world : World σ) :
    (world.log event).annals m = world.annals m := by
  simp [annals, log, silent]

theorem annals_record (silent : event.tellsBody m = false) (world : World σ) (n : ModuleId) :
    (world.record n event).annals m = world.annals m := by
  unfold record
  split
  · exact annals_log silent world
  · rfl

theorem annals_record_of_tells {world : World σ} (made : m ∈ world)
    (tells : event.tellsBody m = true) :
    (world.record m event).annals m = world.annals m ++ [event] := by
  simp [record_of_mem made, annals, log, tells]

theorem annals_record_update (world : World σ) (k n : ModuleId) (change : Module σ → Module σ) :
    ((world.update n change).record k event).annals m = (world.record k event).annals m := by
  unfold record
  rw [length_update]
  split <;> rfl

theorem annals_settle (world : World σ) (n : ModuleId) (name : String) (value : Value) :
    (world.settle n name value).2.annals m = world.annals m := by
  unfold settle
  split
  · exact annals_record rfl world n
  · rfl

theorem annals_settleAll (world : World σ) (n : ModuleId) (entries : List (String × Value)) :
    (world.settleAll n entries).annals m = world.annals m := by
  unfold settleAll
  induction entries generalizing world with
  | nil => rfl
  | cons entry rest ih =>
    rw [List.foldl_cons, ih]
    exact annals_record rfl world n

theorem annals_merge (world : World σ) (n source : ModuleId) :
    (world.merge n source).annals m = world.annals m :=
  annals_record rfl _ n

theorem annals_forward (world : World σ) (n source : ModuleId) (localName remoteName : String)
    (value : Option Value) :
    (world.forward n source localName remoteName value).annals m = world.annals m :=
  annals_record rfl world n

theorem annals_prepare (world : World σ) (id : String) (names : List ExportName) :
    (world.prepare id names).2.annals m = world.annals m := by
  unfold prepare
  split
  · rfl
  · exact annals_log rfl world

end World

theorem Action.annals_perform {m : ModuleId} (world : World σ) (action : Action) :
    (action.perform world).2.annals m = world.annals m := by
  cases action with
  | settle n name value => exact world.annals_settle n name value
  | merge n source => exact world.annals_merge n source
  | prepare id names => exact world.annals_prepare id names
  | note label values => exact World.annals_log rfl world
  | _ => rfl

namespace Demand

variable {m : ModuleId}

theorem annals_deliver (how : Reading) (target : Target) (world : World σ)
    (result : Except Fault Value) :
    (deliver how target world result).2.annals m = world.annals m := by
  unfold deliver
  split
  · rfl
  · split
    · rfl
    · split
      · rfl
      · cases target <;> exact World.annals_record rfl world _

theorem annals_react (world : World σ) (demand : Demand) (progress : Progress) :
    (demand.react world progress).2.annals m = world.annals m := by
  unfold react
  split
  · rfl
  · exact annals_deliver ..
  · exact annals_deliver ..
  · rfl
  · rfl
  · exact world.annals_forward ..
  · rfl
  · exact World.annals_record rfl world _
  · rfl
  · rfl
  · rfl

theorem annals_proceed (world : World σ) (demand : Demand) :
    (demand.proceed world).2.annals m = world.annals m := by
  unfold proceed
  split
  · split
    · split
      · rfl
      · exact annals_deliver ..
    · exact annals_deliver ..
  · rfl
  · exact world.annals_forward ..
  · rfl
  · rfl

end Demand

/-- Tells of a turn in the journal. -/
def Turn.record (turn : Turn σ) (world : World σ) : World σ :=
  match turn with
  | .attached n _ => world.record n (.executing n (world.module n).wildcards)
  | .began n _ => world.record n (.resuming n ((world.module n).steps + 1))
  | .completed n _ => world.record n (.completed n (world.module n).steps)
  | .failed n cause => world.record n (.bodyFailed n cause)
  | .quiet | .making _ | .dropped _ | .yielded .. | .unwound .. => world

namespace Machine

variable {world : World σ} {stack : List (Frame σ)} {m n : ModuleId}

theorem annals_runHooks (after : After) (hooks : List (Hook σ)) :
    (runHooks n after stack world hooks).world.annals m = world.annals m := by
  unfold runHooks
  split
  · exact World.annals_record rfl world n
  · split
    · exact Demand.annals_react ..
    · rfl

theorem annals_load (after : After) :
    (load n after stack world).world.annals m = world.annals m := by
  unfold load
  split
  · exact annals_runHooks ..
  · exact (annals_runHooks ..).trans (World.annals_record rfl _ n)

theorem annals_advance (demand : Demand) (n : ModuleId) (stack : List (Frame σ)) (world : World σ) :
    (advance demand n stack world).world.annals m = ((world.turn n).record world).annals m := by
  unfold advance World.turn
  split
  · exact (Demand.annals_react ..).trans (World.annals_record rfl world n)
  · cases (world.module n).slot.readiness with
    | failed cause => exact Demand.annals_react ..
    | idle => exact Demand.annals_react ..
    | exhausted => exact Demand.annals_react ..
    | ready body => exact World.annals_record_update ..

theorem annals_resumeFrame (frame : Frame σ) (outcome : Outcome) :
    (resumeFrame stack world frame outcome).world.annals m =
      ((frame.turn outcome).record world).annals m := by
  cases frame with
  | caller next => rfl
  | hooks n rest after =>
    cases outcome with
    | panicked message => rfl
    | failed cause => exact annals_runHooks after rest
    | returned value => exact annals_runHooks after rest
  | building n body =>
    cases outcome with
    | panicked message => rfl
    | failed cause => exact World.annals_record_update ..
    | returned value => exact World.annals_record_update ..
  | stepping n verdict demand =>
    cases outcome with
    | panicked message => rfl
    | failed cause => exact (Demand.annals_react ..).trans (World.annals_record_update ..)
    | returned value =>
      cases report : verdict value with
      | yield =>
        simp only [resumeFrame, Frame.turn, report]
        exact Demand.annals_react ..
      | complete =>
        simp only [resumeFrame, Frame.turn, report]
        exact (annals_load _).trans (World.annals_record_update ..)

theorem annals_commit (entries : List (String × Value)) (next : Outcome → Program σ) :
    (commit n entries next stack world).world.annals m = world.annals m := by
  have settled (event : Event) (silent : event.tellsBody m = false) :
      ((world.record n event).settleAll n entries).annals m = world.annals m :=
    (World.annals_settleAll _ n entries).trans (World.annals_record silent world n)
  rw [commit_eq]
  split
  · rfl
  · dsimp only
    split
    · exact (annals_load _).trans (settled _ rfl)
    · exact (annals_load _).trans (settled _ rfl)
    · exact settled _ rfl

theorem annals_importer (hook : ModuleId → Program σ) (next : Outcome → Program σ) :
    (importer n hook next stack world).world.annals m = world.annals m := by
  unfold importer
  split
  · exact World.annals_record rfl _ n
  · exact annals_runHooks ..

theorem annals_stepProgram (program : Program σ) :
    (stepProgram stack world program).world.annals m =
      ((turn ⟨.run program, stack, world⟩).record world).annals m := by
  cases program with
  | done outcome =>
    cases stack with
    | nil => rfl
    | cons frame rest => exact annals_resumeFrame frame outcome
  | act action next => exact action.annals_perform world
  | commit n entries next => exact annals_commit entries next
  | execute n factory code ending next =>
    simp only [turn, stepProgram, execute]
    split <;> rfl
  | importer n hook next => exact annals_importer hook next
  | call callee arguments next =>
    simp only [turn, stepProgram, call]
    split
    · split <;> rfl
    · rfl
  | resume id n next =>
    simp only [turn, stepProgram, resume]
    split <;> rfl
  | host | demand | function | detach | remaining => rfl

/-- Of what a transition does to bodies, the journal tells its turn and nothing else. -/
theorem annals_step (machine : Machine σ) (m : ModuleId) :
    machine.step.world.annals m = (machine.turn.record machine.world).annals m := by
  obtain ⟨control, stack, world⟩ := machine
  cases control with
  | run program => exact annals_stepProgram program
  | demand demand =>
    simp only [turn, step, stepDemand]
    cases demand.awaited? world with
    | none => exact Demand.annals_proceed ..
    | some n => exact annals_advance demand n stack world

end Machine

/-- What there is to tell of a body that was attached, but for its end. -/
def Module.resumptions (m : ModuleId) (module : Module σ) : List Event :=
  .executing m module.wildcards :: (List.range' 1 module.steps).map (.resuming m)

/-- What there is to tell of the life of a module's body, going by the module. -/
def Module.annals (m : ModuleId) (module : Module σ) : List Event :=
  match module.slot.state with
  | .pending => []
  | .suspended | .running => module.resumptions m
  | .completed => module.resumptions m ++ [.completed m module.steps]
  | .failed => module.resumptions m ++ module.slot.failure.toList.map (.bodyFailed m)

theorem Module.annals_congr {module other : Module σ} (life : other.life = module.life)
    (wildcards : other.wildcards = module.wildcards) (m : ModuleId) :
    other.annals m = module.annals m := by
  simp only [annals, resumptions, slot_of_life life, steps_of_life life, wildcards]

namespace Turn

variable {turn : Turn σ} {world : World σ} {m : ModuleId}

theorem annals_record_of_ne (other : turn.about? ≠ some m) :
    (turn.record world).annals m = world.annals m := by
  cases turn with
  | attached n | began n | completed n | failed n =>
    refine World.annals_record ?_ world n
    exact decide_eq_false fun same => other (congrArg some same)
  | quiet | making | dropped | yielded | unwound => rfl

/-- A turn leaves told what there is to tell of the module then. -/
theorem annals_record {frames later : List (Frame σ)} (orderly : Orderly world frames)
    (enabled : turn.Enabled world) (moves : turn.Moves frames later) (about : turn.about? = some m)
    (told : world.annals m = (world.module m).annals m) :
    (turn.record world).annals m = (turn.change (world.module m)).annals m := by
  have made := orderly.mem_of_about enabled moves about
  have appends (event : Event) (tells : event.tellsBody m = true) :
      (world.record m event).annals m = (world.module m).annals m ++ [event] := by
    rw [World.annals_record_of_tells made tells, told]
  cases moves with
  | quiet => cases about
  | making | dropped | unwound =>
    cases about
    exact told
  | attached =>
    cases about
    cases orderly.fits _ List.mem_cons_self rfl with
    | building slot =>
      have steps := ((orderly.shaped m made).of_pending (by rw [slot]; rfl)).2
      refine (appends (.executing m (world.module m).wildcards) (decide_eq_true rfl)).trans ?_
      simp [Module.annals, Module.resumptions, change, Module.attach, Module.release, slot, steps,
        Slot.empty]
  | began =>
    cases about
    have slot := (orderly.shaped m made).of_ready enabled.2
    refine (appends (.resuming m ((world.module m).steps + 1)) (decide_eq_true rfl)).trans ?_
    simp [Module.annals, Module.resumptions, change, Module.resumed, Module.hold, slot,
      List.range'_1_concat, Nat.add_comm 1]
  | yielded =>
    cases about
    cases orderly.fits _ List.mem_cons_self rfl with
    | stepping slot =>
      refine told.trans ?_
      simp [Module.annals, Module.resumptions, change, Module.yield, Module.release, slot]
  | completed =>
    cases about
    cases orderly.fits _ List.mem_cons_self rfl with
    | stepping slot =>
      refine (appends (.completed m (world.module m).steps) (decide_eq_true rfl)).trans ?_
      simp [Module.annals, Module.resumptions, change, Module.complete, Module.release, slot]
  | failed =>
    cases about
    cases orderly.fits _ List.mem_cons_self rfl with
    | stepping slot =>
      refine (appends (.bodyFailed m _) (decide_eq_true rfl)).trans ?_
      simp [Module.annals, Module.resumptions, change, Module.fail, Module.release, slot]

end Turn

/-- In every run, the journal has of each body what there is to tell of it. -/
theorem Run.annals_eq {machine : Machine σ} {turns : List (Turn σ)}
    (run : Run allowed machine turns) (m : ModuleId) :
    machine.world.annals m = (machine.world.module m).annals m := by
  have absent {world : World σ} (missing : m ∉ world) : (world.module m).annals m = [] := by
    rw [World.module_of_not_mem missing]
    rfl
  induction run with
  | start => exact (absent (Nat.not_lt_zero m)).symm
  | next _ _ _ ih => exact ih
  | @step machine turns run ih =>
    rw [machine.annals_step]
    by_cases about : machine.turn.about? = some m
    · have enabled := machine.transition.enabled
      have moves := machine.transition.moves
      have made := run.orderly.mem_of_about enabled moves about
      have wildcards := (machine.grows_step.module m made).wildcards
      rw [Turn.annals_record run.orderly enabled moves about ih]
      refine (Module.annals_congr (Machine.life_step_of_about made about) (wildcards.trans ?_) m).symm
      cases machine.turn <;> rfl
    · rw [Turn.annals_record_of_ne about, ih]
      by_cases old : m ∈ machine.world
      · exact (Module.annals_congr (Machine.life_step_of_not_about old about)
          (machine.grows_step.module m old).wildcards m).symm
      · rw [absent old]
        by_cases made : m ∈ machine.step.world
        · have pending := congrArg (Slot.state ∘ Life.slot) (Machine.life_step_of_not_mem made old)
          have still : (machine.step.world.module m).slot.state = .pending := pending
          simp only [Module.annals, still]
        · exact (absent made).symm

end LiveBindings
