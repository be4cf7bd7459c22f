import LiveBindings.Proofs.LinkingRun
import Mathlib.Algebra.BigOperators.Group.Finset.Piecewise
import Mathlib.Algebra.Order.BigOperators.Group.Finset
import Mathlib.Algebra.Order.Ring.Nat

namespace LiveBindings

variable {σ : Type} {allowed : Program σ → Prop}

/-- How many resumptions a body that is a list of statements has left. -/
def Body.left (body : Body σ) : Nat :=
  match body.ending with
  | .afterStatements count => count + 1 - body.position
  | .told _ => 0

def Life.left (life : Life σ) : Nat := life.slot.body.elim 0 Body.left

def Module.left (module : Module σ) : Nat := module.life.left

/-- How many resumptions the bodies of a world have left. -/
def World.left (world : World σ) : Nat :=
  ∑ m ∈ Finset.range world.modules.length, (world.module m).left

theorem Body.left_ofStatements (statements : List (ModuleId → Program σ)) (position : Nat) :
    ((ofStatements statements).after position).left = statements.length + 1 - position := by
  simp [left, after, ofStatements]

theorem Body.left_advanced_le (body : Body σ) : body.advanced.left ≤ body.left := by
  unfold left advanced
  cases body.ending with
  | afterStatements count => simp only; omega
  | told verdict => exact Nat.le_refl 0

theorem Module.left_of_life {module other : Module σ} (same : module.life = other.life) :
    module.left = other.left := congrArg Life.left same

namespace World

variable {before after world : World σ}

theorem left_eq_sum {n : Nat} (enough : world.modules.length ≤ n) :
    world.left = ∑ m ∈ Finset.range n, (world.module m).left := by
  refine Finset.sum_subset (Finset.range_subset_range.mpr enough) fun m _ beyond => ?_
  rw [module_of_not_mem fun member => beyond (Finset.mem_range.mpr member)]
  rfl

theorem left_le (fewer : ∀ m, (after.module m).left ≤ (before.module m).left) :
    after.left ≤ before.left := by
  have early := Nat.le_max_left before.modules.length after.modules.length
  have late := Nat.le_max_right before.modules.length after.modules.length
  rw [left_eq_sum early, left_eq_sum late]
  exact Finset.sum_le_sum fun m _ => fewer m

theorem left_lt (fewer : ∀ m, (after.module m).left ≤ (before.module m).left) {m : ModuleId}
    (less : (after.module m).left < (before.module m).left) : after.left < before.left := by
  have made : m ∈ before := by
    refine Classical.byContradiction fun missing => ?_
    rw [module_of_not_mem missing] at less
    exact Nat.not_lt_zero _ less
  have early := Nat.le_max_left before.modules.length after.modules.length
  have late := Nat.le_max_right before.modules.length after.modules.length
  rw [left_eq_sum early, left_eq_sum late]
  refine Finset.sum_lt_sum (fun m _ => fewer m) ⟨m, Finset.mem_range.mpr ?_, less⟩
  exact Nat.lt_of_lt_of_le made early

end World

/-- A turn other than the attachment of a body adds no resumptions. -/
theorem Turn.left_change_le {turn : Turn σ} {module : Module σ}
    (plain : ∀ m body, turn ≠ .attached m body)
    (ready : ∀ m body, turn = .began m body → module.slot.body = some body) :
    (turn.change module).left ≤ module.left := by
  cases turn with
  | attached m body => exact absurd rfl (plain m body)
  | began m body =>
    have slot := ready m body rfl
    simp only [change, Module.left, Module.life, Life.left, Module.resumed, slot, Option.elim_some]
    exact body.left_advanced_le
  | completed | failed => exact Nat.zero_le _
  | quiet | making | dropped | yielded | unwound => exact Nat.le_refl _

namespace Run

variable {machine : Machine σ} {turns : List (Turn σ)}

theorem module_left_step_le (run : Run allowed machine turns)
    (plain : ∀ m body, machine.turn ≠ .attached m body) (m : ModuleId) :
    (machine.step.world.module m).left ≤ (machine.world.module m).left := by
  by_cases made : m ∈ machine.world
  · by_cases about : machine.turn.about? = some m
    · rw [Module.left_of_life (Machine.life_step_of_about made about)]
      refine Turn.left_change_le plain fun n body began => ?_
      have enabled := machine.transition.enabled
      rw [began] at enabled about
      cases about
      rw [(run.orderly.shaped m made).of_ready enabled.2]
    · rw [Module.left_of_life (Machine.life_step_of_not_about made about)]
  · by_cases new : m ∈ machine.step.world
    · have none : (machine.step.world.module m).left = 0 :=
        congrArg Life.left (Machine.life_step_of_not_mem new made)
      rw [none]
      exact Nat.zero_le _
    · rw [World.module_of_not_mem new]
      exact Nat.zero_le _

theorem left_step_le (run : Run allowed machine turns)
    (plain : ∀ m body, machine.turn ≠ .attached m body) :
    machine.step.world.left ≤ machine.world.left :=
  World.left_le (run.module_left_step_le plain)

/-- A resumption that begins in a run of linking code is one of those that were left. -/
theorem left_step_lt (run : Run (Linking true) machine turns) {m : ModuleId} {body : Body σ}
    (began : machine.turn = .began m body) : machine.step.world.left < machine.world.left := by
  have enabled := machine.transition.enabled
  rw [began] at enabled
  have made := World.mem_of_free enabled.1
  have slot := (run.orderly.shaped m made).of_ready enabled.2
  have plain (n : ModuleId) (other : Body σ) : machine.turn ≠ .attached n other := by
    rw [began]
    exact nofun
  refine World.left_lt (run.module_left_step_le plain) (m := m) ?_
  rw [Module.left_of_life (Machine.life_step_of_about made (by rw [began]; rfl)), began]
  obtain ⟨statements, position, rfl, within, _⟩ := run.ready run.links.2 began
  simp only [Turn.change, Module.left, Module.life, Life.left, Module.resumed, slot,
    Option.elim_some, Body.advanced_after, Body.left_ofStatements]
  omega

end Run

def Turn.begins : Turn σ → Bool
  | .began .. => true
  | _ => false

def Passage.begins : Passage σ → Bool
  | .began _ => true
  | .ended _ => false

def resumptions (turns : List (Turn σ)) : Nat := turns.countP Turn.begins

/-- How many resumptions of a module's body have begun. -/
def resumptionsOf (m : ModuleId) (turns : List (Turn σ)) : Nat :=
  (passages m turns).countP Passage.begins

@[simp]
theorem resumptionsOf_cons (m : ModuleId) (turn : Turn σ) (turns : List (Turn σ)) :
    resumptionsOf m (turn :: turns) =
      resumptionsOf m turns + ((turn.passage? m).toList.countP Passage.begins) := by
  simp only [resumptionsOf, passages, List.filterMap_cons]
  cases turn.passage? m with
  | none => rfl
  | some passage => simp [List.countP_cons]

theorem Turn.countP_passage? (turn : Turn σ) (m : ModuleId) :
    (turn.passage? m).toList.countP Passage.begins =
      if turn.begins = true ∧ turn.about? = some m then 1 else 0 := by
  unfold passage?
  by_cases about : turn.about? = some m
  · rw [if_pos about]
    cases turn <;> simp_all [begins, outcome?, Passage.begins]
  · simp [about]

theorem resumptions_eq_sum {turns : List (Turn σ)} {n : Nat}
    (made : ∀ turn ∈ turns, ∀ m, turn.about? = some m → m < n) :
    resumptions turns = ∑ m ∈ Finset.range n, resumptionsOf m turns := by
  induction turns with
  | nil => simp [resumptions, resumptionsOf, passages]
  | cons turn rest ih =>
    have shares : (∑ m ∈ Finset.range n, (turn.passage? m).toList.countP Passage.begins) =
        if turn.begins then 1 else 0 := by
      simp only [Turn.countP_passage?]
      cases begins : turn.begins with
      | false => simp
      | true =>
        cases turn with
        | began m body =>
          have inside := made _ List.mem_cons_self m rfl
          simp [Turn.about?, Finset.sum_ite_eq, inside]
        | _ => cases begins
    simp only [resumptionsOf_cons, Finset.sum_add_distrib, shares]
    rw [← ih fun other member => made other (List.mem_cons_of_mem _ member), resumptions,
      List.countP_cons]
    rfl

theorem Body.countP_course (m : ModuleId) (body : Body σ) (outcomes : List Outcome) :
    (body.course m outcomes).countP Passage.begins = outcomes.length := by
  induction outcomes generalizing body with
  | nil => rfl
  | cons outcome rest ih => simp [course, List.countP_cons, Passage.begins, ih]

theorem Body.Lasts.length_le_remaining {m : ModuleId} {body : Body σ} {outcomes : List Outcome}
    (lasts : body.Lasts m outcomes) (links : body.Links m) : outcomes.length ≤ body.remaining := by
  obtain ⟨statements, rfl, _⟩ := links
  exact lasts.length_le

/-- A list of statements is resumed at most once for each statement, and once more. -/
theorem Chronicle.countP_le {m : ModuleId} {life : Life σ} {given : List (Body σ)}
    {past : List (Passage σ)} (chronicle : Chronicle m life given past)
    (linked : ∀ body ∈ given, body.Links m) :
    past.countP Passage.begins ≤ (given.map fun body => body.remaining + 1).sum := by
  have within {body : Body σ} {outcomes : List Outcome} (lasts : body.Lasts m outcomes)
      (member : body ∈ given) : outcomes.length ≤ body.remaining :=
    lasts.length_le_remaining (linked body member)
  cases chronicle with
  | unattached => exact Nat.le_refl 0
  | waiting lasts =>
    have within := within lasts (List.mem_singleton_self _)
    simp only [Body.countP_course, List.map_cons, List.map_nil, List.sum_cons, List.sum_nil]
    omega
  | stepping lasts =>
    have within := within lasts (List.mem_singleton_self _)
    simp only [List.countP_append, Body.countP_course, List.countP_singleton, Passage.begins,
      if_true, List.map_cons, List.map_nil, List.sum_cons, List.sum_nil]
    omega
  | completed lasts | failed lasts =>
    have within := within lasts (List.mem_singleton_self _)
    simp only [Body.countP_course, List.length_append, List.length_singleton, List.map_cons,
      List.map_nil, List.sum_cons, List.sum_nil]
    omega

theorem Run.mem_of_about {machine : Machine σ} {turns : List (Turn σ)}
    (run : Run allowed machine turns) {turn : Turn σ} (member : turn ∈ turns) {m : ModuleId}
    (about : turn.about? = some m) : m ∈ machine.world := by
  induction run with
  | start template host => cases member
  | next _ _ _ ih => exact ih member
  | @step machine turns run ih =>
    rcases List.mem_append.mp member with early | last
    · exact Machine.made_of_made (ih early)
    · rw [List.mem_singleton.mp last] at about
      exact Machine.made_of_made
        (run.orderly.mem_of_about machine.transition.enabled machine.transition.moves about)

/-- A run of linking code resumes no more than the statements of the bodies that were attached, and
once more for each of these bodies. -/
theorem Run.resumptions_le_sum {machine : Machine σ} {turns : List (Turn σ)}
    (run : Run (Linking true) machine turns) :
    resumptions turns ≤ ∑ m ∈ Finset.range machine.world.modules.length,
      ((bodies m turns).map fun body => body.remaining + 1).sum := by
  rw [resumptions_eq_sum fun turn member m about => run.mem_of_about member about]
  refine Finset.sum_le_sum fun m _ => (run.chronicle m).countP_le fun body given => ?_
  exact run.links.2 m body (mem_bodies.mp given)

end LiveBindings
