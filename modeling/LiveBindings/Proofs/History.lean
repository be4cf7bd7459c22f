import LiveBindings.Proofs.Reach
import LiveBindings.Proofs.Transition

namespace LiveBindings

variable {σ : Type} {allowed : Program σ → Prop}

/-- Programs run one after another, the first in a world without modules and each later one in the
world that the one before left. Only allowed programs are started; `fun _ => True` allows all. -/
inductive Run (allowed : Program σ → Prop) : Machine σ → List (Turn σ) → Prop
  | start {program : Program σ} (template : Config) (host : σ) : allowed program →
      Run allowed (.start program (.empty template host)) []
  | step {machine turns} : Run allowed machine turns →
      Run allowed machine.step (turns ++ [machine.turn])
  | next {machine turns outcome} {program : Program σ} : Run allowed machine turns →
      machine.outcome? = some outcome → allowed program →
      Run allowed (.start program machine.world) turns

/-- The runs that go through one machine and come to another one. -/
inductive Machine.Precedes : Machine σ → Machine σ → Prop
  | refl (machine : Machine σ) : Precedes machine machine
  | step {first last : Machine σ} : Precedes first last → Precedes first last.step
  | next {first last : Machine σ} {outcome : Outcome} (program : Program σ) : Precedes first last →
      last.outcome? = some outcome → Precedes first (.start program last.world)

theorem Run.reaches {first last : Machine σ} {turns : List (Turn σ)} (run : Run allowed first turns)
    (reach : first.Reaches last) : ∃ later, Run allowed last (turns ++ later) := by
  induction reach generalizing turns with
  | refl => exact ⟨[], by rwa [List.append_nil]⟩
  | @step first last _ ih =>
    obtain ⟨later, run⟩ := ih run.step
    exact ⟨first.turn :: later, by rwa [List.append_cons]⟩

def Machine.after (machine : Machine σ) : Nat → Machine σ
  | 0 => machine
  | count + 1 => (machine.after count).step

def Machine.turns (machine : Machine σ) : Nat → List (Turn σ)
  | 0 => []
  | count + 1 => machine.turns count ++ [(machine.after count).turn]

theorem Run.after {machine : Machine σ} {turns : List (Turn σ)} (run : Run allowed machine turns)
    (count : Nat) : Run allowed (machine.after count) (turns ++ machine.turns count) := by
  induction count with
  | zero => rwa [Machine.turns, List.append_nil]
  | succ count ih =>
    rw [Machine.turns, ← List.append_assoc]
    exact ih.step

theorem Machine.reaches_after (machine : Machine σ) (count : Nat) :
    Reaches machine (machine.after count) := by
  induction count with
  | zero => exact .refl machine
  | succ count ih => exact ih.then rfl

theorem Machine.after_step (machine : Machine σ) (count : Nat) :
    machine.step.after count = (machine.after count).step := by
  induction count with
  | zero => rfl
  | succ count ih => exact congrArg Machine.step ih

/-- A machine that comes to an end after a number of transitions leads to nothing but what it goes
through on the way. -/
theorem Machine.Reaches.exists_after {first last : Machine σ} {count : Nat} {outcome : Outcome}
    (reach : Reaches first last) (ended : (first.after count).outcome? = some outcome) :
    ∃ i ≤ count, last = first.after i := by
  induction reach with
  | refl => exact ⟨0, Nat.zero_le count, rfl⟩
  | @step first last _ ih =>
    have still : (first.after count).step = first.after count := step_of_outcome? ended
    obtain ⟨i, bound, rfl⟩ := ih (by rw [after_step, still, ended])
    rw [after_step]
    rcases Nat.lt_or_eq_of_le bound with less | rfl
    · exact ⟨i + 1, less, rfl⟩
    · exact ⟨i, Nat.le_refl i, still⟩

theorem Machine.precedes_after (machine : Machine σ) (count : Nat) :
    machine.Precedes (machine.after count) := by
  induction count with
  | zero => exact .refl machine
  | succ count ih => exact ih.step

theorem Machine.run?_of_after {machine : Machine σ} {count : Nat} {outcome : Outcome}
    (ended : (machine.after count).outcome? = some outcome) :
    ∃ limit, machine.run? limit = some (outcome, (machine.after count).world) := by
  have reach := machine.reaches_after count
  rw [eq_of_outcome? ended] at reach
  exact reach.run?

theorem Run.weaken {machine : Machine σ} {turns : List (Turn σ)} (run : Run allowed machine turns) :
    Run (fun _ => True) machine turns := by
  induction run with
  | start template host => exact .start template host trivial
  | step _ ih => exact .step ih
  | next _ ended _ ih => exact .next ih ended trivial

theorem Machine.Precedes.run {first last : Machine σ} {turns : List (Turn σ)}
    (precedes : first.Precedes last) (run : Run (fun _ => True) first turns) :
    ∃ later, Run (fun _ => True) last (turns ++ later) := by
  induction precedes with
  | refl => exact ⟨[], by rwa [List.append_nil]⟩
  | @step last _ ih =>
    obtain ⟨later, run⟩ := ih
    exact ⟨later ++ [last.turn], by rw [← List.append_assoc]; exact run.step⟩
  | next program _ ended ih =>
    obtain ⟨later, run⟩ := ih
    exact ⟨later, run.next ended trivial⟩

/-- Runs with the machines that they went through, the latest first. That the next program is started
is no transition, so the machine that has ended is left out. -/
inductive Trail (allowed : Program σ → Prop) : Machine σ → List (Machine σ) → Prop
  | start {program : Program σ} (template : Config) (host : σ) : allowed program →
      Trail allowed (.start program (.empty template host)) []
  | step {machine past} : Trail allowed machine past → Trail allowed machine.step (machine :: past)
  | next {machine past outcome} {program : Program σ} : Trail allowed machine past →
      machine.outcome? = some outcome → allowed program →
      Trail allowed (.start program machine.world) past

theorem Trail.run {machine : Machine σ} {past : List (Machine σ)} (trail : Trail allowed machine past) :
    Run allowed machine (past.map Machine.turn).reverse := by
  induction trail with
  | start template host allows => exact .start template host allows
  | step _ ih =>
    rw [List.map_cons, List.reverse_cons]
    exact ih.step
  | next _ ended allows ih => exact ih.next ended allows

/-- Every run leaves a trail. -/
theorem Run.trail {machine : Machine σ} {turns : List (Turn σ)} (run : Run allowed machine turns) :
    ∃ past, Trail allowed machine past ∧ (past.map Machine.turn).reverse = turns := by
  induction run with
  | start template host allows => exact ⟨[], .start template host allows, rfl⟩
  | @step machine turns _ ih =>
    obtain ⟨past, trail, rfl⟩ := ih
    exact ⟨machine :: past, trail.step, by rw [List.map_cons, List.reverse_cons]⟩
  | next _ ended allows ih =>
    obtain ⟨past, trail, same⟩ := ih
    exact ⟨past, trail.next ended allows, same⟩

/-- The machines that a number of transitions go through, the latest first. -/
def Machine.passed (machine : Machine σ) : Nat → List (Machine σ)
  | 0 => []
  | count + 1 => machine.after count :: machine.passed count

theorem Trail.after {machine : Machine σ} {past : List (Machine σ)} (trail : Trail allowed machine past)
    (count : Nat) : Trail allowed (machine.after count) (machine.passed count ++ past) := by
  induction count with
  | zero => exact trail
  | succ count ih => exact ih.step

theorem Trail.precedes {machine earlier : Machine σ} {past : List (Machine σ)}
    (trail : Trail allowed machine past) (member : earlier ∈ past) :
    earlier.step.Precedes machine := by
  induction trail with
  | start => cases member
  | next _ ended _ ih => exact (ih member).next _ ended
  | step _ ih =>
    rcases List.mem_cons.mp member with rfl | before
    · exact .refl _
    · exact (ih before).step

end LiveBindings
