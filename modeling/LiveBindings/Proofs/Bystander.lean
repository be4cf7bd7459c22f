import LiveBindings.Proofs.Advance
import LiveBindings.Proofs.Numbering

namespace LiveBindings

open Machine

variable {σ : Type}

/-- What holds of the machines that a run goes through and in which something waits. -/
def Machine.Inside (holds : Machine σ → Prop) (first : Machine σ) : Prop :=
  ∀ reached, Reaches first reached → reached.stack ≠ [] → holds reached

/-- The transition leaves a module as it is: it neither writes into it nor resumes it, makes it a body or
hands it a hook. -/
def Machine.LeavesAlone (m : ModuleId) (machine : Machine σ) : Prop :=
  machine.step.world.module m = machine.world.module m

/-- The modules are the same but for what they have under some names. -/
structure Module.Near (names : List String) (one other : Module σ) : Prop where
  kept : other = { one with declared := other.declared, bindings := other.bindings }
  declares : ∀ name, name ∉ names → one.declares name = other.declares name
  peek : ∀ name, name ∉ names → one.peek name = other.peek name

/-- All that is not one module. -/
def Share.but (m : ModuleId) : Share σ where
  modules n := n ≠ m
  functions _ := True
  bodies _ := True
  identifiers _ := True
  Own := σ
  own := id

/-- The worlds are the same but for what one module has under some names. The journals may differ. -/
structure World.Near (m : ModuleId) (names : List String) (one other : World σ) : Prop where
  counts : ∀ kind, one.count kind = other.count kind
  beside : one.Agrees (.but m) other
  module : (one.module m).Near names (other.module m)

/-- The transition does the same whatever a module has under some names, and whether it declares them. -/
def Machine.Overlooks (m : ModuleId) (names : List String) (machine : Machine σ) : Prop :=
  ∀ world, machine.world.Near m names world → ∃ later,
    step ⟨machine.control, machine.stack, world⟩ =
        ⟨machine.step.control, machine.step.stack, later⟩ ∧
      machine.step.world.Near m names later

/-- The transition is an operation that names a module, or the end of a resumption or a factory of it. -/
def Machine.Concerns (m : ModuleId) (machine : Machine σ) : Prop :=
  match machine.control, machine.stack with
  | .run (.done _), frame :: _ => frame.owner? = some m
  | .run program, _ => m ∈ program.subjects
  | .demand demand, _ => m ∈ demand.subjects

namespace Module.Near

variable {names : List String} {one other : Module σ}

theorem refl (names : List String) (module : Module σ) : module.Near names module :=
  ⟨rfl, fun _ _ => rfl, fun _ _ => rfl⟩

/-- What is defined under one of the names makes no difference. -/
theorem define (near : one.Near names other) {name : String} (member : name ∈ names)
    (value : Option Value) : (one.define name value).Near names other where
  kept := by
    rw [near.kept]
    cases value <;> rfl
  declares also apart := by
    have differs : also ≠ name := fun same => apart (same ▸ member)
    rw [declares_define, decide_eq_false differs, Bool.false_or, near.declares also apart]
  peek also apart := by
    have differs : also ≠ name := fun same => apart (same ▸ member)
    rw [peek_define, if_neg differs, Option.none_or, near.peek also apart]

end Module.Near

/-- Renaming changes nothing in what the programs have of their own. -/
@[reducible]
def inertAction (σ : Type) : MulAction Renaming σ where
  smul _ state := state
  one_smul _ := rfl
  mul_smul _ _ _ := rfl

section One

variable [MulAction Renaming σ] {share : Share σ} {one other : World σ}

theorem World.mirrors_one : one.Mirrors 1 share other ↔ one.Agrees share other := by
  have own : (1 : Renaming)⁻¹ • other.host = other.host := by rw [inv_one, one_smul]
  constructor
  · intro mirrors
    exact {
      made := mirrors.made
      module := fun m mine => ((mirrors.module m mine).trans (Module.rename_one _)).symm
      function := fun id mine => by simpa using (mirrors.function id mine).symm
      body := fun id mine => by simpa using (mirrors.body id mine).symm
      registry := fun id mine => by simpa using (mirrors.registry id mine).symm
      template := mirrors.template.symm
      own := (own ▸ mirrors.own).symm }
  · intro agrees
    exact {
      made := agrees.made
      module := fun m mine => (agrees.module m mine).symm.trans (Module.rename_one _).symm
      function := fun id mine => by simpa using (agrees.function id mine).symm
      body := fun id mine => by simpa using (agrees.body id mine).symm
      registry := fun id mine => by simpa using (agrees.registry id mine).symm
      template := agrees.template.symm
      own := own.symm ▸ agrees.own.symm }

theorem Machine.twin_one (machine : Machine σ) (world : World σ) :
    machine.twin 1 world = ⟨machine.control, machine.stack, world⟩ := by
  simp [twin]

end One

namespace World.Near

variable {m n : ModuleId} {names : List String} {one other : World σ}

theorem refl (m : ModuleId) (names : List String) (world : World σ) : world.Near m names world :=
  ⟨fun _ => rfl, .refl _ world, .refl names _⟩

theorem module_eq (near : one.Near m names other) (differs : n ≠ m) : one.module n = other.module n :=
  near.beside.module n differs

theorem label (near : one.Near m names other) (differs : n ≠ m) : one.label n = other.label n := by
  rw [World.label, near.module_eq differs]
  rfl

theorem mem_iff (near : one.Near m names other) : n ∈ one ↔ n ∈ other := by
  rw [World.mem_iff, World.mem_iff]
  exact iff_of_eq (congrArg (n < ·) (near.counts .module))

theorem record (near : one.Near m names other) (n : ModuleId) (event event' : Event) :
    (one.record n event).Near m names (other.record n event') := by
  let _ := inertAction σ
  refine ⟨fun kind => ?_, ?_, ?_⟩
  · rw [count_of_setting (setting_record ..), count_of_setting (setting_record ..), near.counts kind]
  · exact mirrors_one.mp ((mirrors_one.mpr near.beside).record n n event event')
  · rw [module_record, module_record]
    exact near.module

theorem update (near : one.Near m names other) (differs : n ≠ m) (change : Module σ → Module σ) :
    (one.update n change).Near m names (other.update n change) := by
  let _ := inertAction σ
  refine ⟨fun kind => ?_, ?_, ?_⟩
  · rw [count_of_setting (setting_update ..), count_of_setting (setting_update ..), near.counts kind]
  · refine mirrors_one.mp ((mirrors_one.mpr near.beside).update n change change fun module => ?_)
    rw [Module.rename_one, Module.rename_one]
  · rw [module_update_of_ne _ differs.symm, module_update_of_ne _ differs.symm]
    exact near.module

theorem begun (near : one.Near m names other) (differs : n ≠ m) (body : Body σ) :
    (one.begun n body).Near m names (other.begun n body) :=
  (near.update differs _).record n _ _

end World.Near

namespace Machine

variable {m : ModuleId} {machine : Machine σ} {world : World σ}

theorem concerns_of_touches (touches : machine.Touches m) : machine.Concerns m := by
  obtain ⟨control, stack, world⟩ := machine
  cases control with
  | demand demand => exact touches
  | run program =>
    cases program with
    | done outcome =>
      cases stack with
      | nil => cases touches
      | cons frame rest => exact touches
    | _ => exact Program.mem_subjects _ touches

theorem within_of_not_concerns (made : m ∈ machine.world) (apart : ¬ machine.Concerns m)
    (goesOn : ∀ outcome, machine.control = .run (.done outcome) → machine.stack = []) :
    machine.Within (.but m) .nothing := by
  have apart : m ∉ machine.subjects := by
    obtain ⟨control, stack, before⟩ := machine
    cases control with
    | demand demand => exact apart
    | run program =>
      cases program with
      | done outcome =>
        obtain rfl : stack = [] := goesOn outcome rfl
        exact apart
      | _ => exact apart
  refine within_of_subjects (fun _ => trivial) (fun _ => trivial) (fun _ => trivial) (fun _ _ => id)
    (Nat.ne_of_gt made) fun n member => ?_
  rintro rfl
  exact apart member

/-- A transition that does not concern a module does the same whatever that module is. -/
theorem alike_of_not_concerns (made : m ∈ machine.world) (apart : ¬ machine.Concerns m)
    (counts : ∀ kind, machine.world.count kind = world.count kind)
    (agrees : machine.world.Agrees (.but m) world) :
    ∃ later, step ⟨machine.control, machine.stack, world⟩ =
        ⟨machine.step.control, machine.step.stack, later⟩ ∧
      (∀ kind, machine.step.world.count kind = later.count kind) ∧
      machine.step.world.Agrees (.but m) later := by
  let _ := inertAction σ
  have mirrors := World.mirrors_one.mpr agrees
  have alike : machine.step.Mirrors 1 (.but m) (machine.twin 1 world).step ∧
      (machine.twin 1 world).madeKind? = machine.madeKind? := by
    by_cases goesOn : ∀ outcome, machine.control = .run (.done outcome) → machine.stack = []
    · have within := within_of_not_concerns made apart goesOn
      exact ⟨within.mirrors mirrors fun kind _ => counts kind, within.madeKind?_twin mirrors⟩
    · obtain ⟨control, stack, before⟩ := machine
      push Not at goesOn
      obtain ⟨outcome, rfl, waits⟩ := goesOn
      cases stack with
      | nil => exact absurd rfl waits
      | cons frame rest =>
        refine ⟨mirrors.resumeFrame rest (fun n owner => ?_) outcome, rfl⟩
        rintro rfl
        exact apart owner
  obtain ⟨alike, makes⟩ := alike
  have stepped := alike.eq_twin
  have counted (kind : Kind) := (machine.twin 1 world).count_step kind
  have agrees := World.mirrors_one.mp alike.world
  rw [twin_one, twin_one] at stepped
  rw [makes, twin_one] at counted
  rw [twin_one] at agrees
  refine ⟨_, stepped, fun kind => ?_, agrees⟩
  rw [counted kind, machine.count_step kind, counts kind]

theorem leavesAlone_of_not_concerns (made : m ∈ machine.world) (apart : ¬ machine.Concerns m) :
    machine.LeavesAlone m := module_step made fun touches => apart (concerns_of_touches touches)

theorem overlooks_of_not_concerns (made : m ∈ machine.world) (apart : ¬ machine.Concerns m)
    (names : List String) : machine.Overlooks m names := by
  intro world near
  obtain ⟨later, same, counts, beside⟩ := alike_of_not_concerns made apart near.counts near.beside
  have kept := leavesAlone_of_not_concerns made apart
  have kept' : LeavesAlone m ⟨machine.control, machine.stack, world⟩ :=
    leavesAlone_of_not_concerns (near.mem_iff.mp made) apart
  refine ⟨later, same, counts, beside, ?_⟩
  rw [LeavesAlone, same] at kept'
  rw [kept, kept']
  exact near.module

theorem above_injective {base : List (Frame σ)} {one other : Machine σ}
    (same : one.above base = other.above base) : one = other := by
  obtain ⟨control, stack, world⟩ := one
  obtain ⟨control', stack', world'⟩ := other
  simpa [above] using same

namespace Inside

variable {holds : Machine σ → Prop} {first last : Machine σ} {control : Control σ} {frame : Frame σ}
  {stack : List (Frame σ)} {later : World σ} {outcome : Outcome} {names : List String}

theorem of_reaches (inside : first.Inside holds) (reach : Reaches first last) : last.Inside holds :=
  fun reached late => inside reached (reach.trans late)

/-- Where something waits, what holds inside a run holds of all that runs above it. -/
theorem above (inside : Inside holds ⟨control, frame :: stack, world⟩) {reached : Machine σ}
    (reach : Reaches ⟨control, [], world⟩ reached) : holds (reached.above (frame :: stack)) :=
  inside _ (reach.above (frame :: stack)) (List.append_ne_nil_of_right_ne_nil _ (List.cons_ne_nil _ _))

/-- What runs above a frame, and never changes a module, leaves it as it is when it ends. -/
theorem module_of_ends (inside : Inside (LeavesAlone m) ⟨control, frame :: stack, world⟩)
    (ends : control.Ends world outcome later) : later.module m = world.module m := by
  suffices kept : ∀ {first last : Machine σ}, Reaches first last →
      (∀ reached, Reaches first reached → LeavesAlone m (reached.above (frame :: stack))) →
      last.world.module m = first.world.module m from
    kept (ends []) fun _ => inside.above
  intro first last reach alone
  induction reach with
  | refl => rfl
  | @step first last _ ih =>
    refine (ih fun reached reach => alone reached (.step reach)).trans ?_
    cases ended : first.outcome? with
    | some outcome => rw [step_of_outcome? ended]
    | none =>
      have kept := alone first (.refl first)
      rwa [LeavesAlone, step_above _ ended] at kept

/-- What runs above a frame, and does not look at some names of a module, comes to the same end whatever
the module has under them. -/
theorem ends_of_near (inside : Inside (Overlooks m names) ⟨control, frame :: stack, world⟩)
    (ends : control.Ends world outcome later) {other : World σ} (near : world.Near m names other) :
    ∃ later', control.Ends other outcome later' ∧ later.Near m names later' := by
  suffices alike : ∀ {first last : Machine σ}, Reaches first last →
      (∀ reached, Reaches first reached → Overlooks m names (reached.above (frame :: stack))) →
      ∀ other, first.world.Near m names other → ∃ later,
        Reaches ⟨first.control, first.stack, other⟩ ⟨last.control, last.stack, later⟩ ∧
          last.world.Near m names later by
    obtain ⟨later', reach, still⟩ := alike (ends []) (fun _ => inside.above) other near
    exact ⟨later', Control.ends_of_reaches reach, still⟩
  intro first last reach overlooks
  induction reach with
  | refl => exact fun other near => ⟨other, .refl _, near⟩
  | @step first last _ ih =>
    intro other near
    have follows := ih fun reached reach => overlooks reached (.step reach)
    cases ended : first.outcome? with
    | some outcome =>
      rw [step_of_outcome? ended] at follows
      exact follows other near
    | none =>
      have going : outcome? ⟨first.control, first.stack, other⟩ = none := ended
      obtain ⟨next, same, still⟩ := overlooks first (.refl first) other near
      rw [step_above _ ended] at same still
      have stepped : (step ⟨first.control, first.stack, other⟩).above (frame :: stack) =
          Machine.above ⟨first.step.control, first.step.stack, next⟩ (frame :: stack) :=
        (step_above (frame :: stack) going).symm.trans same
      obtain ⟨later, reach, late⟩ := follows next still
      exact ⟨later, .step (above_injective stepped ▸ reach), late⟩

end Inside

end Machine

namespace World

variable {m n : ModuleId} {names : List String} {world other later : World σ} {body : Body σ}
  {outcome : Outcome} {hooks : List (Hook σ)} {after : After} {stack : List (Frame σ)}
  {progress : Progress} {demand : Demand}

theorem RunsHooks.module_of_inside (runs : RunsHooks n world hooks later)
    (inside : Inside (LeavesAlone m) (runHooks n after stack world hooks)) :
    later.module m = world.module m := by
  induction runs with
  | nil => rfl
  | cons ends calm _ ih =>
    have kept := inside.module_of_ends ends
    rw [module_record] at kept
    exact (ih (inside.of_reaches (reaches_runHooks ends calm after stack _))).trans kept

theorem RunsHooks.near_of_inside (runs : RunsHooks n world hooks later)
    (inside : Inside (Overlooks m names) (runHooks n after stack world hooks))
    (near : world.Near m names other) :
    ∃ later', RunsHooks n other hooks later' ∧ later.Near m names later' := by
  induction runs generalizing other with
  | nil => exact ⟨other, .nil, near⟩
  | cons ends calm _ ih =>
    obtain ⟨middle', ends', still⟩ := inside.ends_of_near ends (near.record n _ _)
    obtain ⟨later', runs', late⟩ := ih (inside.of_reaches (reaches_runHooks ends calm after stack _)) still
    exact ⟨later', .cons ends' calm runs', late⟩

theorem Loads.module_of_inside (loads : Loads n world later) (differs : n ≠ m)
    (inside : Inside (LeavesAlone m) (load n after stack world)) : later.module m = world.module m := by
  cases loads with
  | already loaded => rfl
  | now waiting runs =>
    simp only [load, waiting] at inside
    rw [runs.module_of_inside inside, module_record, module_update_of_ne _ differs.symm]

theorem Loads.near_of_inside (loads : Loads n world later) (differs : n ≠ m)
    (inside : Inside (Overlooks m names) (load n after stack world))
    (near : world.Near m names other) : ∃ later', Loads n other later' ∧ later.Near m names later' := by
  have same := near.module_eq differs
  cases loads with
  | already loaded => exact ⟨other, .already (same ▸ loaded), near⟩
  | now waiting runs =>
    simp only [load, waiting] at inside
    have loaded := near.update differs Module.load
    obtain ⟨later', runs', late⟩ := runs.near_of_inside inside (loaded.record n _ _)
    exact ⟨later', .now (same ▸ waiting) runs', late⟩

theorem Resumes.module_of_inside (resumes : world.Resumes n body outcome later) (differs : n ≠ m)
    (inside : Inside (LeavesAlone m) (advance demand n stack world)) :
    later.module m = world.module m := by
  rw [resumes.advance_eq] at inside
  rw [inside.module_of_ends resumes.ends, begun, module_record, module_update_of_ne _ differs.symm]

theorem Resumes.near_of_inside (resumes : world.Resumes n body outcome later) (differs : n ≠ m)
    (inside : Inside (Overlooks m names) (advance demand n stack world))
    (near : world.Near m names other) :
    ∃ later', other.Resumes n body outcome later' ∧ later.Near m names later' := by
  rw [resumes.advance_eq] at inside
  obtain ⟨later', ends, late⟩ := inside.ends_of_near resumes.ends (near.begun differs body)
  have enabled := resumes.enabled
  rw [Turn.Enabled, near.module_eq differs] at enabled
  exact ⟨later', ⟨enabled, ends⟩, late⟩

/-- Asking a module to go on leaves another one as it is, if no transition on the way changes it. -/
theorem Goes.module_of_inside (goes : world.Goes n progress later) (differs : n ≠ m)
    (inside : Inside (LeavesAlone m) (advance demand n stack world)) :
    later.module m = world.module m := by
  cases goes with
  | refused => exact module_record ..
  | broken | idle | exhausted => rfl
  | yielded resumes =>
    exact (module_update_of_ne _ differs.symm _).trans (resumes.module_of_inside differs inside)
  | completed resumes report loads =>
    have loaded := loads.module_of_inside differs
      (inside.of_reaches (resumes.reaches_load report demand stack))
    rw [loaded, module_record, module_update_of_ne _ differs.symm, resumes.module_of_inside differs inside]
  | failed resumes =>
    rw [module_record, module_update_of_ne _ differs.symm, resumes.module_of_inside differs inside]

/-- Asking a module to go on comes to the same whatever another one has under some names, if no
transition on the way looks at them. -/
theorem Goes.near_of_inside (goes : world.Goes n progress later) (differs : n ≠ m)
    (inside : Inside (Overlooks m names) (advance demand n stack world))
    (near : world.Near m names other) :
    ∃ later', other.Goes n progress later' ∧ later.Near m names later' := by
  have same := near.module_eq differs
  cases goes with
  | refused held => exact ⟨_, .refused (same ▸ held), near.record n _ _⟩
  | broken free ready =>
    rw [near.label differs]
    exact ⟨other, .broken (same ▸ free) (same ▸ ready), near⟩
  | idle free ready => exact ⟨other, .idle (same ▸ free) (same ▸ ready), near⟩
  | exhausted free ready => exact ⟨other, .exhausted (same ▸ free) (same ▸ ready), near⟩
  | yielded resumes report =>
    obtain ⟨ran, resumes', still⟩ := resumes.near_of_inside differs inside near
    exact ⟨_, .yielded resumes' report, still.update differs _⟩
  | completed resumes report loads =>
    obtain ⟨ran, resumes', still⟩ := resumes.near_of_inside differs inside near
    have ended := still.update differs Module.complete
    obtain ⟨later', loads', late⟩ := loads.near_of_inside differs
      (inside.of_reaches (resumes.reaches_load report demand stack)) (ended.record n _ _)
    exact ⟨later', .completed resumes' report loads', late⟩
  | failed resumes =>
    obtain ⟨ran, resumes', still⟩ := resumes.near_of_inside differs inside near
    rw [still.label differs]
    exact ⟨_, .failed resumes', (still.update differs _).record n _ _⟩

end World

end LiveBindings
