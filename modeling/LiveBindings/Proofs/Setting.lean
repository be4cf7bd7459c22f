import LiveBindings.Proofs.Surface

namespace LiveBindings

variable {σ : Type}

namespace World

/-- The world with nothing in its modules, and nothing in its journal. -/
def setting (world : World σ) : World σ :=
  { world with modules := List.replicate world.modules.length .absent, journal := [] }

theorem length_of_setting {before after : World σ} (same : after.setting = before.setting) :
    after.modules.length = before.modules.length := by
  simpa [setting] using congrArg (·.modules.length) same

@[simp]
theorem setting_record (world : World σ) (m : ModuleId) (event : Event) :
    (world.record m event).setting = world.setting := by
  unfold record
  split <;> rfl

@[simp]
theorem setting_update (world : World σ) (m : ModuleId) (change : Module σ → Module σ) :
    (world.update m change).setting = world.setting := by
  rw [setting, length_update]
  rfl

@[simp]
theorem setting_settle (world : World σ) (m : ModuleId) (name : String) (value : Value) :
    (world.settle m name value).2.setting = world.setting := by
  unfold settle
  split
  · rw [setting_update, setting_record]
  · rfl

@[simp]
theorem setting_settleAll (world : World σ) (m : ModuleId) (entries : List (String × Value)) :
    (world.settleAll m entries).setting = world.setting := by
  unfold settleAll
  induction entries generalizing world with
  | nil => rfl
  | cons entry rest ih => rw [List.foldl_cons, ih, setting_update, setting_record]

@[simp]
theorem setting_merge (world : World σ) (m source : ModuleId) :
    (world.merge m source).setting = world.setting := by
  simp only [merge, setting_record, setting_update]

@[simp]
theorem setting_forward (world : World σ) (m source : ModuleId) (localName remoteName : String)
    (value : Option Value) :
    (world.forward m source localName remoteName value).setting = world.setting := by
  rw [forward, setting_update, setting_record]

end World

/-- The operation may change the setting of the modules. -/
def Program.Sets : Program σ → Prop
  | .host .. | .function .. | .detach .. | .resume .. => True
  | .act (.create ..) _ | .act (.prepare ..) _ => True
  | _ => False

namespace Demand

@[simp]
theorem setting_deliver (how : Reading) (target : Target) (world : World σ)
    (result : Except Fault Value) :
    (deliver how target world result).2.setting = world.setting := by
  unfold deliver
  split
  · rfl
  · split
    · rfl
    · split
      · rfl
      · exact World.setting_record ..

@[simp]
theorem setting_react (world : World σ) (demand : Demand) (progress : Progress) :
    (demand.react world progress).2.setting = world.setting := by
  unfold react
  split <;> simp [giveUp]

@[simp]
theorem setting_proceed (world : World σ) (demand : Demand) :
    (demand.proceed world).2.setting = world.setting := by
  unfold proceed
  split
  · split
    · split <;> simp [giveUp]
    · simp
  all_goals simp

end Demand

namespace Machine

variable (stack : List (Frame σ)) (world : World σ) (m : ModuleId)

@[simp]
theorem setting_runHooks (after : After) (queue : List (Hook σ)) :
    (runHooks m after stack world queue).world.setting = world.setting := by
  unfold runHooks
  split
  · exact World.setting_record ..
  · split
    · exact Demand.setting_react ..
    · rfl

@[simp]
theorem setting_load (after : After) :
    (load m after stack world).world.setting = world.setting := by
  unfold load
  split
  · exact setting_runHooks ..
  · rw [setting_runHooks, World.setting_record, World.setting_update]

@[simp]
theorem setting_advance (demand : Demand) :
    (advance demand m stack world).world.setting = world.setting := by
  unfold advance
  split
  · exact (Demand.setting_react ..).trans (World.setting_record ..)
  · split
    · exact Demand.setting_react ..
    · exact Demand.setting_react ..
    · exact Demand.setting_react ..
    · rw [World.setting_record, World.setting_update]

@[simp]
theorem setting_resumeFrame (frame : Frame σ) (outcome : Outcome) :
    (resumeFrame stack world frame outcome).world.setting = world.setting := by
  unfold resumeFrame
  split
  · rfl
  · exact World.setting_update ..
  · simp [join]
  · split
    · simp [join]
    · rw [setting_load, World.setting_record, World.setting_update]
  · exact World.setting_update ..
  · rw [World.setting_record, World.setting_update]
  · rfl
  · exact setting_runHooks ..

theorem setting_stepProgram {program : Program σ} (keeps : ¬ program.Sets) :
    (stepProgram stack world program).world.setting = world.setting := by
  cases program with
  | done outcome =>
    cases stack with
    | nil => rfl
    | cons frame rest => exact setting_resumeFrame ..
  | act action next =>
    cases action with
    | create | prepare => exact absurd trivial keeps
    | settle n name value => exact World.setting_settle ..
    | merge n source => exact World.setting_merge ..
    | _ => rfl
  | commit n entries next =>
    simp only [stepProgram, commit_eq]
    split
    · rfl
    · split <;> simp
  | execute n factory code ending next =>
    simp only [stepProgram, execute]
    split
    · exact World.setting_update ..
    · rfl
  | importer n hook next =>
    simp only [stepProgram, importer]
    split
    · exact (World.setting_record ..).trans (World.setting_update ..)
    · rw [setting_runHooks, World.setting_update]
  | call callee arguments next =>
    simp only [stepProgram, call]
    split
    · split <;> rfl
    · rfl
  | demand | remaining => rfl
  | host | function | detach | resume => exact absurd trivial keeps

/-- Only the operations that are told to can change the setting of the modules. -/
theorem setting_step {machine : Machine σ}
    (keeps : ∀ program, machine.control = .run program → ¬ program.Sets) :
    machine.step.world.setting = machine.world.setting := by
  obtain ⟨control, stack, world⟩ := machine
  cases control with
  | run program => exact setting_stepProgram stack world (keeps program rfl)
  | demand demand =>
    simp only [step, stepDemand]
    split
    · exact setting_advance ..
    · exact Demand.setting_proceed ..

end Machine

end LiveBindings
