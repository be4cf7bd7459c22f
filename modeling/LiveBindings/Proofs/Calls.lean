import LiveBindings.Operation
import LiveBindings.Proofs.Reach

namespace LiveBindings

variable {σ : Type}

/-- The computation did not end with a panic. -/
def Result.Calm {α : Type} (result : Result α) : Prop := ∀ message, result ≠ .panicked message

theorem Result.Calm.returned {α : Type} (value : α) : (Result.returned value).Calm := fun _ => nofun

namespace Machine

/-- The machine with more that waits below. -/
def above (machine : Machine σ) (base : List (Frame σ)) : Machine σ :=
  { machine with stack := machine.stack ++ base }

theorem advance_above (demand : Demand) (m : ModuleId) (stack base : List (Frame σ))
    (world : World σ) :
    advance demand m (stack ++ base) world = (advance demand m stack world).above base := by
  unfold advance
  split
  · rfl
  · split <;> rfl

theorem runHooks_above (m : ModuleId) (after : After) (stack base : List (Frame σ))
    (world : World σ) (hooks : List (Hook σ)) :
    runHooks m after (stack ++ base) world hooks = (runHooks m after stack world hooks).above base := by
  unfold runHooks
  split
  · rfl
  · split <;> rfl

theorem load_above (m : ModuleId) (after : After) (stack base : List (Frame σ)) (world : World σ) :
    load m after (stack ++ base) world = (load m after stack world).above base := by
  unfold load
  split <;> exact runHooks_above ..

theorem resumeFrame_above (stack base : List (Frame σ)) (world : World σ) (frame : Frame σ)
    (outcome : Outcome) : resumeFrame (stack ++ base) world frame outcome =
      (resumeFrame stack world frame outcome).above base := by
  unfold resumeFrame
  split
  · rfl
  · rfl
  · rfl
  · split
    · rfl
    · exact load_above ..
  · rfl
  · rfl
  · rfl
  · exact runHooks_above ..

theorem stepProgram_above {program : Program σ} {stack : List (Frame σ)} (base : List (Frame σ))
    (world : World σ) (going : outcome? ⟨.run program, stack, world⟩ = none) :
    stepProgram (stack ++ base) world program = (stepProgram stack world program).above base := by
  cases program with
  | done outcome =>
    cases stack with
    | nil => cases going
    | cons frame rest => exact resumeFrame_above ..
  | commit m entries next =>
    simp only [stepProgram, commit]
    split
    · rfl
    · split
      · rfl
      · split
        · exact load_above _ _ (.caller next :: stack) ..
        · exact load_above _ _ (.caller next :: stack) ..
        · rfl
  | execute m factory code ending next =>
    simp only [stepProgram, execute]
    split <;> rfl
  | importer m hook next =>
    simp only [stepProgram, importer]
    split
    · rfl
    · exact runHooks_above _ _ (.caller next :: stack) ..
  | call callee arguments next =>
    simp only [stepProgram, call]
    split
    · split <;> rfl
    · rfl
  | resume id m next =>
    simp only [stepProgram, resume]
    split <;> rfl
  | host | act | demand | function | detach | remaining => rfl

/-- What waits below a machine that goes on has no part in its transition. -/
theorem step_above {machine : Machine σ} (base : List (Frame σ))
    (going : machine.outcome? = none) : (machine.above base).step = machine.step.above base := by
  obtain ⟨control, stack, world⟩ := machine
  cases control with
  | run program => exact stepProgram_above base world going
  | demand demand =>
    simp only [step, above, stepDemand]
    split
    · exact advance_above ..
    · rfl

theorem Reaches.above {first last : Machine σ} (reach : Reaches first last)
    (base : List (Frame σ)) : Reaches (first.above base) (last.above base) := by
  induction reach with
  | refl => exact .refl _
  | @step first last _ ih =>
    cases ended : first.outcome? with
    | none =>
      rw [← step_above base ended] at ih
      exact .step ih
    | some outcome => rwa [step_of_outcome? ended] at ih

theorem run?_of_going {limit : Nat} {machine : Machine σ} {result : Outcome × World σ}
    (going : machine.outcome? = none) (ends : machine.run? limit = some result) :
    ∃ rest, rest < limit ∧ machine.step.run? rest = some result := by
  cases limit with
  | zero => cases ends
  | succ limit =>
    simp only [run?, going] at ends
    exact ⟨limit, Nat.lt_succ_self limit, ends⟩

/-- A run that ends first brings what is above some frames to an outcome for them. -/
theorem run?_split {limit : Nat} {control : Control σ} {frames base : List (Frame σ)}
    {world last : World σ} {outcome : Outcome}
    (ends : run? limit ⟨control, frames ++ base, world⟩ = some (outcome, last)) :
    ∃ inner middle rest, rest ≤ limit ∧
      Reaches ⟨control, frames, world⟩ ⟨.answer inner, [], middle⟩ ∧
      run? rest ⟨.answer inner, base, middle⟩ = some (outcome, last) := by
  induction limit generalizing control frames world with
  | zero => cases ends
  | succ limit ih =>
    cases ended : outcome? (⟨control, frames, world⟩ : Machine σ) with
    | some inner =>
      have same := eq_of_outcome? ended
      simp only [mk.injEq] at same
      obtain ⟨rfl, rfl, _⟩ := same
      exact ⟨inner, world, limit + 1, Nat.le_refl _, .refl _, ends⟩
    | none =>
      have next := step_above base ended
      unfold run? at ends
      split at ends
      · next result there =>
        have same := eq_of_outcome? there
        simp only [mk.injEq, List.append_eq_nil_iff] at same
        obtain ⟨rfl, ⟨rfl, _⟩, _⟩ := same
        cases ended
      · change run? limit (Machine.step (above ⟨control, frames, world⟩ base)) = _ at ends
        rw [next] at ends
        obtain ⟨inner, middle, rest, less, reach, later⟩ := ih ends
        exact ⟨inner, middle, rest, Nat.le_succ_of_le less, .step reach, later⟩

/-- A caller that hands on what it is given ends with it. -/
theorem eq_of_handed {limit : Nat} {world last : World σ} {inner outcome : Outcome}
    (ends : run? limit ⟨.answer inner, [.caller .done], world⟩ = some (outcome, last)) :
    outcome = inner ∧ last = world := by
  have handed := (reaches_of_run? ends).step_to_end (outcome?_answer outcome last)
  have same := handed.eq_of_outcome? (outcome?_answer inner world)
  cases same
  exact ⟨rfl, rfl⟩

end Machine

open Machine

/-- In a world, the control comes to an outcome and leaves another world, whatever waits for it. -/
def Control.Ends (control : Control σ) (world : World σ) (outcome : Outcome) (later : World σ) :
    Prop := ∀ stack, Reaches ⟨control, stack, world⟩ ⟨.answer outcome, stack, later⟩

namespace Control

variable {control : Control σ} {demand : Demand} {world middle later : World σ}
  {outcome inner : Outcome} {next : Outcome → Program σ}

theorem ends_of_reaches
    (reach : Reaches ⟨control, [], world⟩ ⟨.answer outcome, [], later⟩) :
    control.Ends world outcome later := fun stack => reach.above stack

theorem ends_iff : control.Ends world outcome later ↔
    ∃ limit, run? limit ⟨control, [], world⟩ = some (outcome, later) :=
  ⟨fun ends => (ends []).run?, fun ⟨_, result⟩ => ends_of_reaches (reaches_of_run? result)⟩

/-- In a run that ends, the control comes to an end of its own before what waits for it goes on. -/
theorem exists_ends {limit : Nat} {base : List (Frame σ)}
    (ends : run? limit ⟨control, base, world⟩ = some (outcome, later)) :
    ∃ inner middle rest, rest ≤ limit ∧ control.Ends world inner middle ∧
      run? rest ⟨.answer inner, base, middle⟩ = some (outcome, later) := by
  rw [← List.nil_append base] at ends
  obtain ⟨inner, middle, rest, less, reach, answered⟩ := run?_split ends
  exact ⟨inner, middle, rest, less, ends_of_reaches reach, answered⟩

theorem Ends.unique {other : Outcome} {last : World σ} (ends : control.Ends world outcome later)
    (again : control.Ends world other last) : other = outcome ∧ last = later := by
  have same := (ends []).unique (outcome?_answer ..) (again []) (outcome?_answer ..)
  cases same
  exact ⟨rfl, rfl⟩

/-- A control comes to the end of another one that it leads to. -/
theorem Ends.of_reaches {first : Control σ} (ends : control.Ends middle outcome later)
    (leads : ∀ stack, Reaches ⟨first, stack, world⟩ ⟨control, stack, middle⟩) :
    first.Ends world outcome later := fun stack => (leads stack).trans (ends stack)

theorem ends_answer {other : Outcome} :
    (Control.answer other).Ends world outcome later ↔ outcome = other ∧ later = world := by
  constructor
  · intro ends
    have same := (ends []).eq_of_outcome? (outcome?_answer other world)
    cases same
    exact ⟨rfl, rfl⟩
  · rintro ⟨rfl, rfl⟩
    exact fun _ => .refl _

theorem ends_done (outcome : Outcome) (world : World σ) :
    (Control.run (.done outcome)).Ends world outcome world := fun _ => .refl _

/-- A program that makes a demand goes on with what the demand comes to. -/
theorem Ends.call (asks : (Control.demand demand).Ends world inner middle)
    (goesOn : (Control.run (next inner)).Ends middle outcome later) :
    (Control.run (.demand demand next)).Ends world outcome later := fun stack =>
  .step ((asks (.caller next :: stack)).trans (.step (goesOn stack)))

theorem ends_demand :
    (Control.run (.demand demand .done)).Ends world outcome later ↔
      (Control.demand demand).Ends world outcome later := by
  refine ⟨fun ends => ?_, fun ends => ends.call (ends_done outcome later)⟩
  have asked : Reaches ⟨.demand demand, [.caller .done], world⟩ ⟨.answer outcome, [], later⟩ :=
    (ends []).step_to_end (outcome?_answer outcome later)
  obtain ⟨limit, result⟩ := asked.run?
  obtain ⟨inner, middle, rest, _, asks, answered⟩ := exists_ends result
  obtain ⟨rfl, rfl⟩ := eq_of_handed answered
  exact asks

end Control

/-- Programs that are run from outside one after another, each in the world that the one before it
left, with how they end. -/
inductive Performs : World σ → List (Program σ) → List Outcome → World σ → Prop
  | nil {world} : Performs world [] [] world
  | cons {world middle later program rest outcome outcomes limit} :
      (Machine.start program world).run? limit = some (outcome, middle) →
      Performs middle rest outcomes later →
      Performs world (program :: rest) (outcome :: outcomes) later

namespace Performs

variable {world middle later last : World σ} {program : Program σ} {rest : List (Program σ)}
  {outcome : Outcome} {outcomes others : List Outcome}

theorem cons_iff (ends : (Control.run program).Ends world outcome middle) :
    Performs world (program :: rest) outcomes later ↔
      ∃ others, outcomes = outcome :: others ∧ Performs middle rest others later := by
  constructor
  · rintro (_ | ⟨result, rest⟩)
    obtain ⟨rfl, rfl⟩ := ends.unique (Control.ends_iff.mpr ⟨_, result⟩)
    exact ⟨_, rfl, rest⟩
  · rintro ⟨others, rfl, rest⟩
    obtain ⟨limit, result⟩ := Control.ends_iff.mp ends
    exact .cons result rest

end Performs

end LiveBindings
