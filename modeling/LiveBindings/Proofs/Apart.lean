import LiveBindings.Proofs.Reading
import LiveBindings.Proofs.Replay

namespace LiveBindings

variable {σ : Type}

/-- The module that an action writes to. -/
def Action.subject? : Action → Option ModuleId
  | .settle m _ _ | .merge m _ => some m
  | _ => none

/-- The modules that a demand may write to or resume. -/
def Demand.subjects : Demand → List ModuleId
  | .read _ target => [target.source]
  | .forward m source _ => [m, source]
  | .finish m | .wildcards m => [m]

/-- The module that the next operation of a program is about. -/
def Program.subject? : Program σ → Option ModuleId
  | .act action _ => action.subject?
  | .commit m _ _ | .execute m _ _ _ _ | .importer m _ _ => some m
  | _ => none

namespace Machine

/-- The transition is an operation on a module, or the end of a resumption or a factory of it. -/
def Touches (m : ModuleId) (machine : Machine σ) : Prop :=
  match machine.control, machine.stack with
  | .run (.done _), frame :: _ => frame.owner? = some m
  | .run program, _ => program.subject? = some m
  | .demand demand, _ => m ∈ demand.subjects

/-- A frame further down than the stack goes holds a module. -/
structure Sheltered (m : ModuleId) (machine : Machine σ) : Prop where
  made : m ∈ machine.world
  held : (machine.world.module m).held = true
  outside : m ∉ owners machine.stack

end Machine

namespace Turn.Moves

variable {turn : Turn σ} {frames later : List (Frame σ)} {m : ModuleId}

theorem mem_owners_iff (moves : turn.Moves frames later) (apart : turn.about? ≠ some m) :
    m ∈ owners later ↔ m ∈ owners frames := by
  have skip {frame : Frame σ} {n : ModuleId} (owner : frame.owner? = some n) (differs : n ≠ m)
      (frames : List (Frame σ)) : m ∈ owners (frame :: frames) ↔ m ∈ owners frames := by
    rw [owners_cons owner, List.mem_cons]
    exact or_iff_right (Ne.symm differs)
  have other {n : ModuleId} (about : turn.about? = some n) : n ≠ m := fun same =>
    apart (same ▸ about)
  cases moves with
  | quiet => exact Iff.rfl
  | making => exact skip rfl (other rfl) _
  | began => exact skip rfl (other rfl) _
  | attached | dropped | yielded | completed | failed | unwound =>
    exact (skip rfl (other rfl) _).symm

/-- A turn is about a held module only when it takes away the frame that holds it. -/
theorem mem_owners_of_held {world : World σ} (moves : turn.Moves frames later)
    (enabled : turn.Enabled world) (about : turn.about? = some m)
    (held : (world.module m).held = true) : m ∈ owners frames := by
  cases moves with
  | quiet => cases about
  | making | began =>
    cases about
    cases held.symm.trans enabled.1
  | attached | dropped | yielded | completed | failed | unwound =>
    cases about
    exact mem_owners.mpr ⟨_, List.mem_cons_self, rfl⟩

end Turn.Moves

namespace Machine

variable {machine later : Machine σ} {m : ModuleId}

theorem mem_owners_step_of_not_about (apart : machine.turn.about? ≠ some m) :
    m ∈ owners machine.step.stack ↔ m ∈ owners machine.stack := by
  rw [← owners_holding machine.step.stack, ← owners_holding machine.stack]
  exact machine.transition.moves.mem_owners_iff apart

namespace Sheltered

theorem about?_ne (sheltered : machine.Sheltered m) : machine.turn.about? ≠ some m := by
  intro about
  refine sheltered.outside ?_
  rw [← owners_holding]
  exact machine.transition.moves.mem_owners_of_held machine.transition.enabled about sheltered.held

theorem life_step (sheltered : machine.Sheltered m) :
    (machine.step.world.module m).life = (machine.world.module m).life :=
  life_step_of_not_about sheltered.made sheltered.about?_ne

theorem step (sheltered : machine.Sheltered m) : machine.step.Sheltered m where
  made := made_of_made sheltered.made
  held := (Module.held_of_life sheltered.life_step).trans sheltered.held
  outside := fun inside =>
    sheltered.outside ((mem_owners_step_of_not_about sheltered.about?_ne).mp inside)

theorem reaches (sheltered : machine.Sheltered m) (reach : machine.Reaches later) :
    later.Sheltered m ∧ (later.world.module m).life = (machine.world.module m).life := by
  induction reach with
  | refl => exact ⟨sheltered, rfl⟩
  | step _ ih =>
    obtain ⟨still, same⟩ := ih sheltered.step
    exact ⟨still, same.trans sheltered.life_step⟩

end Sheltered

end Machine

/-- What runs above a frame that holds a module leaves the module's body alone. -/
theorem Control.Ends.life_of_held {control : Control σ} {outcome : Outcome} {world later : World σ}
    {m : ModuleId} (ends : control.Ends world outcome later) (made : m ∈ world)
    (held : (world.module m).held = true) : (later.module m).life = (world.module m).life := by
  have sheltered : (⟨control, [], world⟩ : Machine σ).Sheltered m :=
    ⟨made, held, List.not_mem_nil⟩
  exact (sheltered.reaches (ends [])).2

namespace World

variable {world : World σ} {m n : ModuleId}

theorem module_settleAll_of_ne (world : World σ) (differs : n ≠ m)
    (entries : List (String × Value)) : (world.settleAll m entries).module n = world.module n := by
  unfold settleAll
  induction entries generalizing world with
  | nil => rfl
  | cons entry rest ih => rw [List.foldl_cons, ih, module_update_of_ne _ differs, module_record]

theorem module_forward_of_ne (world : World σ) (differs : n ≠ m) (source : ModuleId)
    (localName remoteName : String) (value : Option Value) :
    (world.forward m source localName remoteName value).module n = world.module n := by
  rw [forward, module_update_of_ne _ differs, module_record]

theorem module_prepare_of_mem (made : m ∈ world) (id : String) (names : List ExportName) :
    (world.prepare id names).2.module m = world.module m := by
  unfold prepare
  split
  · rfl
  · have logged : m ∈ world.log (.prepared id) := made
    exact (module_create_of_mem logged names _).trans (module_log ..)

end World

theorem Action.module_perform {world : World σ} {m : ModuleId} (made : m ∈ world) (action : Action)
    (apart : action.subject? ≠ some m) : (action.perform world).2.module m = world.module m := by
  cases action with
  | create names config => exact World.module_create_of_mem made names config
  | settle n name value =>
    have differs : m ≠ n := fun same => apart (congrArg some same.symm)
    simp only [perform, World.settle]
    split
    · rw [World.module_update_of_ne _ differs, World.module_record]
    · rfl
  | merge n source =>
    have differs : m ≠ n := fun same => apart (congrArg some same.symm)
    simp only [perform, World.merge]
    rw [World.module_record, World.module_update_of_ne _ differs]
  | prepare id names => exact World.module_prepare_of_mem made id names
  | _ => rfl

namespace Demand

variable {world : World σ} {m : ModuleId} {demand : Demand}

@[simp]
theorem module_deliver (how : Reading) (target : Target) (world : World σ)
    (result : Except Fault Value) :
    (deliver how target world result).2.module m = world.module m := by
  unfold deliver
  split
  · rfl
  · split
    · rfl
    · split
      · rfl
      · exact World.module_record ..

/-- A demand that hears of a failure writes nothing. -/
theorem module_react_failed (world : World σ) (demand : Demand) (fault : Fault) :
    (demand.react world (.failed fault)).2.module m = world.module m := by
  cases demand with
  | read how target => exact module_deliver ..
  | forward | finish | wildcards => rfl

theorem module_react (apart : m ∉ demand.subjects) (world : World σ) (progress : Progress) :
    (demand.react world progress).2.module m = world.module m := by
  unfold react
  split
  · rfl
  · exact module_deliver ..
  · exact module_deliver ..
  · rfl
  · rfl
  · refine World.module_forward_of_ne world ?_ ..
    rintro rfl
    exact apart List.mem_cons_self
  · rfl
  · exact World.module_record ..
  · rfl
  · rfl
  · rfl

theorem module_proceed (apart : m ∉ demand.subjects) (world : World σ) :
    (demand.proceed world).2.module m = world.module m := by
  unfold proceed
  split
  · split
    · split
      · rfl
      · exact module_deliver ..
    · exact module_deliver ..
  · rfl
  · refine World.module_forward_of_ne world ?_ ..
    rintro rfl
    exact apart List.mem_cons_self
  · rfl
  · rfl

theorem mem_subjects_of_awaited (awaited : demand.awaited? world = some m) :
    m ∈ demand.subjects := by
  cases demand with
  | read how target =>
    rcases awaited?_read how target world with none | some
    · cases awaited.symm.trans none
    · cases awaited.symm.trans some
      exact List.mem_cons_self
  | forward n source pairs =>
    cases pairs with
    | nil => cases awaited
    | cons pair rest =>
      simp only [awaited?, Option.ite_none_right_eq_some] at awaited
      cases awaited.2
      exact List.mem_cons_of_mem _ List.mem_cons_self
  | finish n =>
    cases awaited
    exact List.mem_cons_self
  | wildcards n =>
    simp only [awaited?, Option.ite_none_right_eq_some] at awaited
    cases awaited.2
    exact List.mem_cons_self

end Demand

namespace Machine

variable {machine : Machine σ} {world : World σ} {m n : ModuleId}

theorem module_runHooks (after : After) (stack : List (Frame σ)) (world : World σ)
    (hooks : List (Hook σ)) : (runHooks n after stack world hooks).world.module m = world.module m := by
  unfold runHooks
  split
  · exact World.module_record ..
  · split <;> rfl

theorem module_load (differs : m ≠ n) (after : After) (stack : List (Frame σ)) (world : World σ) :
    (load n after stack world).world.module m = world.module m := by
  unfold load
  split
  · exact module_runHooks ..
  · rw [module_runHooks, World.module_record, World.module_update_of_ne _ differs]

theorem module_advance {demand : Demand} (apart : m ∉ demand.subjects) (differs : m ≠ n)
    (stack : List (Frame σ)) (world : World σ) :
    (advance demand n stack world).world.module m = world.module m := by
  unfold advance
  split
  · exact (Demand.module_react apart ..).trans (World.module_record ..)
  · cases (world.module n).slot.readiness with
    | failed cause => exact Demand.module_react apart ..
    | idle => exact Demand.module_react apart ..
    | exhausted => exact Demand.module_react apart ..
    | ready body =>
      exact (World.module_record ..).trans (World.module_update_of_ne _ differs _)

theorem module_resumeFrame {frame : Frame σ} (apart : frame.owner? ≠ some m)
    (stack : List (Frame σ)) (world : World σ) (outcome : Outcome) :
    (resumeFrame stack world frame outcome).world.module m = world.module m := by
  cases frame with
  | caller next => rfl
  | hooks n rest after =>
    cases outcome with
    | panicked message => rfl
    | failed cause => exact module_runHooks ..
    | returned value => exact module_runHooks ..
  | building n body =>
    have differs : m ≠ n := fun same => apart (congrArg some same.symm)
    cases outcome with
    | panicked message => exact World.module_update_of_ne _ differs _
    | failed cause => exact (World.module_record ..).trans (World.module_update_of_ne _ differs _)
    | returned value => exact (World.module_record ..).trans (World.module_update_of_ne _ differs _)
  | stepping n verdict demand =>
    have differs : m ≠ n := fun same => apart (congrArg some same.symm)
    cases outcome with
    | panicked message => exact World.module_update_of_ne _ differs _
    | failed cause =>
      refine (Demand.module_react_failed ..).trans ?_
      rw [World.module_record, World.module_update_of_ne _ differs]
    | returned value =>
      cases report : verdict value with
      | yield =>
        simp only [resumeFrame, report]
        exact World.module_update_of_ne _ differs _
      | complete =>
        simp only [resumeFrame, report]
        rw [module_load differs, World.module_record, World.module_update_of_ne _ differs]

theorem module_stepProgram {program : Program σ} (made : m ∈ world) (stack : List (Frame σ))
    (apart : ¬ Touches m ⟨.run program, stack, world⟩) :
    (stepProgram stack world program).world.module m = world.module m := by
  cases program with
  | done outcome =>
    cases stack with
    | nil => rfl
    | cons frame rest => exact module_resumeFrame apart rest world outcome
  | act action next => exact action.module_perform made apart
  | commit n entries next =>
    have differs : m ≠ n := fun same => apart (congrArg some same.symm)
    have settled (event : Event) :
        ((world.record n event).settleAll n entries).module m = world.module m := by
      rw [World.module_settleAll_of_ne _ differs, World.module_record]
    simp only [stepProgram, commit_eq]
    split
    · rfl
    · split
      · rw [module_load differs, settled]
      · rw [module_load differs, settled]
      · exact settled _
  | execute n factory code ending next =>
    have differs : m ≠ n := fun same => apart (congrArg some same.symm)
    simp only [stepProgram, execute]
    split
    · exact World.module_update_of_ne _ differs _
    · rfl
  | importer n hook next =>
    have differs : m ≠ n := fun same => apart (congrArg some same.symm)
    simp only [stepProgram, importer]
    split
    · exact (World.module_record ..).trans (World.module_update_of_ne _ differs _)
    · exact (module_runHooks ..).trans (World.module_update_of_ne _ differs _)
  | call callee arguments next =>
    simp only [stepProgram, call]
    split
    · split <;> rfl
    · rfl
  | resume id n next =>
    simp only [stepProgram, resume]
    split <;> rfl
  | host | demand | function | detach | remaining => rfl

/-- A transition changes no module but those that it touches. -/
theorem module_step (made : m ∈ machine.world) (apart : ¬ machine.Touches m) :
    machine.step.world.module m = machine.world.module m := by
  obtain ⟨control, stack, world⟩ := machine
  cases control with
  | run program => exact module_stepProgram made stack apart
  | demand demand =>
    simp only [step, stepDemand]
    split
    · next n awaited =>
      have member := Demand.mem_subjects_of_awaited awaited
      exact module_advance apart (fun same => apart (same ▸ member)) stack world
    · exact Demand.module_proceed apart world

theorem touches_of_about (about : machine.turn.about? = some m) : machine.Touches m := by
  obtain ⟨control, stack, world⟩ := machine
  cases control with
  | demand demand =>
    cases awaited : demand.awaited? world with
    | none => simp [turn, awaited, Turn.about?] at about
    | some n =>
      simp only [turn, awaited, Option.elim_some, World.turn] at about
      have member := Demand.mem_subjects_of_awaited awaited
      split at about
      · cases about
      · split at about
        · cases about
          exact member
        · cases about
  | run program =>
    cases program with
    | done outcome =>
      cases stack with
      | nil => cases about
      | cons frame rest =>
        cases owner : frame.owner? with
        | none =>
          cases frame with
          | caller | hooks => cases about
          | stepping | building => cases owner
        | some n =>
          have same := (Frame.about?_turn owner outcome).symm.trans about
          exact owner.trans same
    | execute n factory code ending next =>
      simp only [turn] at about
      split at about
      · exact about
      · cases about
    | _ => cases about

/-- A module that a number of transitions do not touch comes out of them as it was. -/
theorem module_after {count : Nat} (made : m ∈ machine.world)
    (apart : ∀ i < count, ¬ (machine.after i).Touches m) :
    (machine.after count).world.module m = machine.world.module m ∧
      (m ∈ owners (machine.after count).stack ↔ m ∈ owners machine.stack) := by
  induction count with
  | zero => exact ⟨rfl, Iff.rfl⟩
  | succ count ih =>
    obtain ⟨same, owned⟩ := ih fun i less => apart i (Nat.lt_succ_of_lt less)
    have still := (machine.reaches_after count).grows.mem made
    have last := apart count (Nat.lt_succ_self count)
    refine ⟨(module_step still last).trans same, Iff.trans ?_ owned⟩
    exact mem_owners_step_of_not_about fun about => last (touches_of_about about)

end Machine

end LiveBindings
