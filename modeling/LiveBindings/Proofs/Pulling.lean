import LiveBindings.Proofs.Absorption
import LiveBindings.Proofs.Bystander

namespace LiveBindings

open Machine

variable {σ : Type}

/-- The fault of a module that cannot go on. -/
def Progress.fault? : Progress → Option Fault
  | .failed fault => some fault
  | _ => none

/-- Pulling a name of a module: the fault if the module fails on the way, and the world that is left. -/
inductive World.Pulls (source : ModuleId) (name : String) : World σ → Option Fault → World σ → Prop
  | rests {world} : (world.module source).lacks name = false → Pulls source name world none world
  | stops {world later progress} : (world.module source).lacks name = true → progress ≠ .stepped →
      world.Goes source progress later → Pulls source name world progress.fault? later
  | steps {world middle later fault} : (world.module source).lacks name = true →
      world.Goes source .stepped middle → Pulls source name middle fault later →
      Pulls source name world fault later

theorem Slot.failure_of_readiness {slot : Slot σ} {cause : Fault}
    (failed : slot.readiness = .failed cause) : slot.failure = some cause := by
  obtain ⟨body, state, failure⟩ := slot
  cases failure with
  | some kept =>
    cases failed
    rfl
  | none => cases state <;> cases body <;> cases failed

/-- What a read hands over of a name that was pulled: what there is, or the fault. -/
def Module.handed (module : Module σ) (name : String) (fault? : Option Fault) : Outcome :=
  fault?.elim (.of (module.reading name)) .failed

/-- What a re-export makes of a name that was pulled: it takes what there is and goes on with the names
that are left, or it hands on the fault. -/
def Demand.take (m source : ModuleId) (localName name : String) (rest : List (String × String))
    (world : World σ) : Option Fault → Control σ × World σ
  | some fault => (.answer (.failed fault), world)
  | none => (.demand (.forward m source rest),
      world.forward m source localName name ((world.module source).peek name))

section Awaited

variable {world : World σ} {source : ModuleId} {name : String} (m : ModuleId) (localName : String)
  (rest : List (String × String))

theorem Demand.read_awaits (lacks : (world.module source).lacks name = true) :
    (Demand.read .resolve (.named source name)).awaited? world = some source := if_pos lacks

theorem Demand.forward_awaits (lacks : (world.module source).lacks name = true) :
    (Demand.forward m source ((localName, name) :: rest)).awaited? world = some source := if_pos lacks

theorem Demand.forward_unawaited (lacks : (world.module source).lacks name = false) :
    (Demand.forward m source ((localName, name) :: rest)).awaited? world = none :=
  if_neg (ne_true_of_eq_false lacks)

/-- What holds inside a re-export holds while its module is asked to go on. -/
theorem Demand.inside_asked {holds : Machine σ → Prop} {stack : List (Frame σ)}
    (lacks : (world.module source).lacks name = true)
    (inside : Inside holds ⟨.demand (.forward m source ((localName, name) :: rest)), stack, world⟩) :
    Inside holds (advance (.forward m source ((localName, name) :: rest)) source stack world) :=
  inside.of_reaches (.of_step (step_of_awaited (Demand.forward_awaits m localName rest lacks) stack))

/-- What holds inside a re-export holds inside it after a step of its module. -/
theorem Demand.inside_stepped {holds : Machine σ → Prop} {stack : List (Frame σ)} {middle : World σ}
    (lacks : (world.module source).lacks name = true) (goes : world.Goes source .stepped middle)
    (inside : Inside holds ⟨.demand (.forward m source ((localName, name) :: rest)), stack, world⟩) :
    Inside holds ⟨.demand (.forward m source ((localName, name) :: rest)), stack, middle⟩ :=
  inside.of_reaches (reaches_of_goes (Demand.forward_awaits m localName rest lacks) goes stack)

end Awaited

theorem Module.calm_handed (module : Module σ) (name : String) (fault? : Option Fault) :
    (module.handed name fault?).Calm := by
  cases fault? with
  | some fault => exact fun _ => nofun
  | none => exact Outcome.calm_of _

/-- A read of a module that has not failed never hands over the failure of a body. -/
theorem Module.handed_ne_failed (module : Module σ) (name label : String) (cause : Fault) :
    module.handed name none ≠ .failed (.failed label cause) := by
  rw [handed, Option.elim_none, reading]
  intro same
  cases seen : module.peek name with
  | some value =>
    rw [seen] at same
    cases same
  | none =>
    rw [seen, Option.elim_none, unsettled] at same
    split at same <;> cases same

namespace World

variable {source m n : ModuleId} {name localName : String} {rest : List (String × String)}
  {names : List String} {world other later last : World σ} {fault? : Option Fault} {fault : Fault}
  {progress : Progress} {demand : Demand} {outcome : Outcome} {stack : List (Frame σ)}

namespace Goes

/-- A module that goes no further without a fault is as it was. -/
theorem module_of_still (goes : world.Goes source progress later) (stays : progress ≠ .stepped)
    (sound : progress.fault? = none) : later.module source = world.module source := by
  cases goes with
  | refused => exact module_record ..
  | idle | exhausted => rfl
  | broken | failed => cases sound
  | yielded | completed => exact absurd rfl stays

theorem exists_cause (goes : world.Goes source progress later) (made : source ∈ world)
    (failed : progress.fault? = some fault) : ∃ cause, fault = .failed (world.label source) cause ∧
      (later.module source).slot.failure = some cause := by
  cases goes with
  | @broken cause _ ready =>
    cases failed
    exact ⟨cause, rfl, Slot.failure_of_readiness ready⟩
  | @failed body cause ran resumes =>
    cases failed
    refine ⟨cause, by rw [resumes.grows.label made], ?_⟩
    rw [module_record, module_update_self _ (resumes.grows.mem made)]
    rfl
  | refused | idle | exhausted | yielded | completed => cases failed

/-- A module that goes no further has not settled the name that it lacked. -/
theorem peek_of_still (goes : world.Goes source progress later) (stays : progress ≠ .stepped)
    (sound : progress.fault? = none) (lacks : (world.module source).lacks name = true) :
    (later.module source).peek name = none := by
  rw [goes.module_of_still stays sound, Module.peek_of_lacks lacks]

theorem react_forward (goes : world.Goes source progress later) (stays : progress ≠ .stepped)
    (lacks : (world.module source).lacks name = true) :
    (Demand.forward m source ((localName, name) :: rest)).react later progress =
      Demand.take m source localName name rest later progress.fault? := by
  cases progress with
  | stepped => exact absurd rfl stays
  | failed fault => rfl
  | busy | idle | exhausted =>
    have missing := goes.peek_of_still stays rfl lacks
    simp only [Demand.react, Progress.fault?, Demand.take, missing]

theorem react_read (goes : world.Goes source progress later) (stays : progress ≠ .stepped)
    (lacks : (world.module source).lacks name = true) :
    (Demand.read .resolve (.named source name)).react later progress =
      (.answer ((later.module source).handed name progress.fault?), later) := by
  cases progress with
  | stepped => exact absurd rfl stays
  | failed fault => rfl
  | busy | idle | exhausted =>
    have missing := goes.peek_of_still stays rfl lacks
    simp only [Progress.fault?, Module.handed, Option.elim_none, Module.reading_of_missing missing]
    exact Demand.deliver_resolve (.named source name) later _

end Goes

namespace Pulls

theorem grows (pulls : Pulls source name world fault? later) : world.Grows later := by
  induction pulls with
  | rests => exact .refl _
  | stops _ _ goes => exact goes.grows
  | steps _ goes _ ih => exact goes.grows.trans ih

/-- A module that fails while a name of it is pulled keeps the cause. -/
theorem exists_cause (pulls : Pulls source name world (some fault) later) (made : source ∈ world) :
    ∃ cause, fault = .failed (world.label source) cause ∧
      (later.module source).slot.failure = some cause := by
  generalize failed : some fault = fault? at pulls
  induction pulls with
  | rests => cases failed
  | stops _ _ goes => exact goes.exists_cause made failed.symm
  | steps _ goes _ ih =>
    rw [← goes.grows.label made]
    exact ih (goes.grows.mem made) failed

/-- A read pulls its name, and hands over what there is. -/
theorem ends_read (pulls : Pulls source name world fault? later) :
    (Control.demand (.read .resolve (.named source name))).Ends world
      ((later.module source).handed name fault?) later := by
  intro stack
  induction pulls with
  | @rests world lacks =>
    have unawaited : (Demand.read .resolve (.named source name)).awaited? world = none :=
      if_neg (ne_true_of_eq_false lacks)
    have given := Demand.reaches_of_unawaited unawaited stack
    rwa [Demand.deliver_resolve] at given
  | stops lacks stays goes =>
    have given := Demand.reaches_of_goes (Demand.read_awaits lacks) goes stack
    rwa [goes.react_read stays lacks] at given
  | steps lacks goes _ ih =>
    exact (Demand.reaches_of_goes (Demand.read_awaits lacks) goes stack).trans ih

/-- A re-export pulls its first name, and takes what there is. -/
theorem reaches_take (pulls : Pulls source name world fault? later) :
    Reaches ⟨.demand (.forward m source ((localName, name) :: rest)), stack, world⟩
      (join stack (Demand.take m source localName name rest later fault?)) := by
  induction pulls with
  | rests lacks => exact .of_step (step_of_unawaited (Demand.forward_unawaited m localName rest lacks) stack)
  | stops lacks stays goes =>
    rw [← goes.react_forward stays lacks]
    exact Demand.reaches_of_goes (Demand.forward_awaits m localName rest lacks) goes stack
  | steps lacks goes _ ih =>
    have awaited := Demand.forward_awaits m localName rest lacks
    exact (Demand.reaches_of_goes awaited goes stack).trans ih

/-- Pulling a name leaves a module as it is that no transition on the way changes. -/
theorem module_of_inside (pulls : Pulls source name world fault? later) (differs : source ≠ m)
    (inside : Inside (LeavesAlone m)
      ⟨.demand (.forward n source ((localName, name) :: rest)), stack, world⟩) :
    later.module m = world.module m := by
  induction pulls with
  | rests => rfl
  | stops lacks _ goes =>
    exact goes.module_of_inside differs (Demand.inside_asked n localName rest lacks inside)
  | steps lacks goes _ ih =>
    have first := goes.module_of_inside differs (Demand.inside_asked n localName rest lacks inside)
    exact (ih (Demand.inside_stepped n localName rest lacks goes inside)).trans first

/-- Pulling a name comes to the same whatever another module has under some names, if no transition on
the way looks at them. -/
theorem near_of_inside (pulls : Pulls source name world fault? later) (differs : source ≠ m)
    (inside : Inside (Overlooks m names)
      ⟨.demand (.forward n source ((localName, name) :: rest)), stack, world⟩)
    (near : world.Near m names other) :
    ∃ later', Pulls source name other fault? later' ∧ later.Near m names later' := by
  induction pulls generalizing other with
  | rests lacks => exact ⟨other, .rests (near.module_eq differs ▸ lacks), near⟩
  | stops lacks stays goes =>
    have asked := Demand.inside_asked n localName rest lacks inside
    obtain ⟨later', goes', late⟩ := goes.near_of_inside differs asked near
    exact ⟨later', .stops (near.module_eq differs ▸ lacks) stays goes', late⟩
  | steps lacks goes _ ih =>
    have asked := Demand.inside_asked n localName rest lacks inside
    obtain ⟨middle', goes', still⟩ := goes.near_of_inside differs asked near
    obtain ⟨later', pulls', late⟩ := ih (Demand.inside_stepped n localName rest lacks goes inside) still
    exact ⟨later', .steps (near.module_eq differs ▸ lacks) goes' pulls', late⟩

end Pulls

/-- A re-export that ends without a panic pulls its first name, and goes on from there. -/
theorem exists_pulls
    (ends : (Control.demand (.forward m source ((localName, name) :: rest))).Ends world outcome last)
    (calm : outcome.Calm) : ∃ fault? later, Pulls source name world fault? later ∧
      (Demand.take m source localName name rest later fault?).1.Ends
        (Demand.take m source localName name rest later fault?).2 outcome last := by
  have only (world : World σ) :
      (Demand.forward m source ((localName, name) :: rest)).awaited? world = none ∨
        (Demand.forward m source ((localName, name) :: rest)).awaited? world = some source := by
    simp only [Demand.awaited?]
    split
    · exact .inr rfl
    · exact .inl rfl
  have lacking {world : World σ}
      (awaited : (Demand.forward m source ((localName, name) :: rest)).awaited? world = some source) :
      (world.module source).lacks name = true := by
    simpa [Demand.awaited?] using awaited
  obtain ⟨middle, result, steps, halts, follows⟩ := Demand.exists_halts only ends calm
  clear ends
  induction steps with
  | refl world =>
    cases halts with
    | unawaited none =>
      have rests : (world.module source).lacks name = false := by
        simpa [Demand.awaited?] using none
      exact ⟨_, world, .rests rests, follows⟩
    | @still progress later awaited stays goes =>
      rw [goes.react_forward stays (lacking awaited)] at follows
      exact ⟨_, later, .stops (lacking awaited) stays goes, follows⟩
  | step awaited goes _ ih =>
    obtain ⟨fault?, later, pulls, follows⟩ := ih halts
    exact ⟨fault?, later, .steps (lacking awaited) goes pulls, follows⟩

end World

end LiveBindings
