import LiveBindings.Machine

namespace LiveBindings

variable {σ : Type}

namespace Machine

/-- Transitions lead from one machine to another. -/
inductive Reaches : Machine σ → Machine σ → Prop
  | refl (machine : Machine σ) : Reaches machine machine
  | step {first last : Machine σ} : Reaches first.step last → Reaches first last

theorem Reaches.trans {first middle last : Machine σ} (early : Reaches first middle)
    (late : Reaches middle last) : Reaches first last := by
  induction early with
  | refl => exact late
  | step _ ih => exact .step (ih late)

theorem Reaches.then {first middle last : Machine σ} (early : Reaches first middle)
    (next : middle.step = last) : Reaches first last :=
  early.trans (.step (next ▸ .refl _))

theorem Reaches.of_step {first last : Machine σ} (next : first.step = last) : Reaches first last :=
  (Reaches.refl first).then next

theorem step_of_unawaited {demand : Demand} {world : World σ}
    (awaited : demand.awaited? world = none) (stack : List (Frame σ)) :
    step ⟨.demand demand, stack, world⟩ = join stack (demand.proceed world) := by
  simp only [step, stepDemand, awaited]

theorem step_of_awaited {demand : Demand} {world : World σ} {m : ModuleId}
    (awaited : demand.awaited? world = some m) (stack : List (Frame σ)) :
    step ⟨.demand demand, stack, world⟩ = advance demand m stack world := by
  simp only [step, stepDemand, awaited]

theorem eq_of_outcome? {machine : Machine σ} {outcome : Outcome}
    (ended : machine.outcome? = some outcome) : machine = ⟨.answer outcome, [], machine.world⟩ := by
  obtain ⟨control, stack, world⟩ := machine
  unfold outcome? at ended
  split at ended
  · next atControl atStack =>
    cases Option.some.inj ended
    rw [show control = _ from atControl, show stack = [] from atStack]
    rfl
  · cases ended

@[simp]
theorem outcome?_answer (outcome : Outcome) (world : World σ) :
    outcome? (⟨.answer outcome, [], world⟩ : Machine σ) = some outcome := rfl

@[simp]
theorem step_answer (outcome : Outcome) (world : World σ) :
    step (⟨.answer outcome, [], world⟩ : Machine σ) = ⟨.answer outcome, [], world⟩ := rfl

theorem step_of_outcome? {machine : Machine σ} {outcome : Outcome}
    (ended : machine.outcome? = some outcome) : machine.step = machine := by
  rw [eq_of_outcome? ended, step_answer]

/-- A machine that has ended leads nowhere else. -/
theorem Reaches.eq_of_outcome? {first last : Machine σ} (reach : Reaches first last)
    {outcome : Outcome} (ended : first.outcome? = some outcome) : last = first := by
  induction reach with
  | refl => rfl
  | step _ ih =>
    rw [step_of_outcome? ended] at ih
    exact ih ended

/-- The end that a machine comes to is the end that it comes to after one transition. -/
theorem Reaches.step_to_end {first last : Machine σ} (reach : Reaches first last)
    {outcome : Outcome} (ended : last.outcome? = some outcome) : Reaches first.step last := by
  cases reach with
  | refl =>
    rw [Machine.step_of_outcome? ended]
    exact .refl _
  | step reach => exact reach

theorem Reaches.unique {first one other : Machine σ} (reach : Reaches first one)
    {outcome : Outcome} (ended : one.outcome? = some outcome) (reach' : Reaches first other)
    {outcome' : Outcome} (ended' : other.outcome? = some outcome') : one = other := by
  induction reach with
  | refl => exact (reach'.eq_of_outcome? ended).symm
  | step _ ih => exact ih ended (reach'.step_to_end ended')

theorem reaches_of_run? {limit : Nat} {machine : Machine σ} {outcome : Outcome} {world : World σ}
    (result : machine.run? limit = some (outcome, world)) :
    Reaches machine ⟨.answer outcome, [], world⟩ := by
  induction limit generalizing machine with
  | zero => cases result
  | succ limit ih =>
    unfold run? at result
    split at result
    · next ended =>
      cases Option.some.inj result
      rw [← eq_of_outcome? ended]
      exact .refl _
    · exact .step (ih result)

theorem Reaches.run? {machine : Machine σ} {outcome : Outcome} {world : World σ}
    (reach : Reaches machine ⟨.answer outcome, [], world⟩) :
    ∃ limit, machine.run? limit = some (outcome, world) := by
  generalize atEnd : (⟨.answer outcome, [], world⟩ : Machine σ) = last at reach
  induction reach with
  | refl => exact ⟨1, by rw [← atEnd]; rfl⟩
  | @step first last _ ih =>
    obtain ⟨limit, result⟩ := ih atEnd
    cases ended : first.outcome? with
    | none => exact ⟨limit + 1, by simpa only [Machine.run?, ended] using result⟩
    | some outcome => exact ⟨limit, by rwa [step_of_outcome? ended] at result⟩

end Machine

end LiveBindings
