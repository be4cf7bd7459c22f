import LiveBindings.Proofs.Apart
import LiveBindings.Proofs.Reexport

namespace LiveBindings

variable {σ : Type}

instance (m : ModuleId) (world : World σ) : Decidable (m ∈ world) :=
  inferInstanceAs (Decidable (m < world.modules.length))

namespace World

variable {first middle last before after world : World σ} {m n : ModuleId} {name : String}

/-- No name was written, and no module was made. -/
structure Unwritten (before after : World σ) : Prop where
  length : after.modules.length = before.modules.length
  surface : ∀ m, (after.module m).surface = (before.module m).surface

theorem Unwritten.of_modules_eq (same : after.modules = before.modules) :
    before.Unwritten after where
  length := congrArg List.length same
  surface m := by rw [module_eq_of_modules_eq same]

theorem Unwritten.refl (world : World σ) : world.Unwritten world := .of_modules_eq rfl

theorem Unwritten.trans (early : first.Unwritten middle) (late : middle.Unwritten last) :
    first.Unwritten last where
  length := late.length.trans early.length
  surface m := (late.surface m).trans (early.surface m)

theorem unwritten_record (world : World σ) (m : ModuleId) (event : Event) :
    world.Unwritten (world.record m event) := .of_modules_eq (modules_record world m event)

theorem unwritten_update (world : World σ) (n : ModuleId) {change : Module σ → Module σ}
    (same : ∀ module, (change module).surface = module.surface) :
    world.Unwritten (world.update n change) where
  length := length_update world n change
  surface m := congr_update Module.surface world n m change same

theorem unwritten_turn (world : World σ) (m : ModuleId) (turn : Turn σ) :
    world.Unwritten (world.update m turn.change) :=
  world.unwritten_update m (Module.surface_change · turn)

/-- Asking a module for a name comes to an end without a step and without a fault: the name is not
awaited, or the module is busy, has no body yet or has none any more. -/
def halts (world : World σ) (source : ModuleId) (name : String) : Bool :=
  !(world.module source).lacks name || (world.module source).held ||
    match (world.module source).slot.readiness with
    | .idle | .exhausted => true
    | .ready _ | .failed _ => false

theorem halts_of_peek {value : Value} (settled : (world.module m).peek name = some value) :
    world.halts m name = true := by
  simp [halts, Module.lacks, settled]

end World

namespace Demand

variable {demand : Demand} {m : ModuleId}

theorem unwritten_deliver (how : Reading) (target : Target) (world : World σ)
    (result : Except Fault Value) : world.Unwritten (deliver how target world result).2 := by
  unfold deliver
  split
  · exact .refl world
  · split
    · exact .refl world
    · split
      · exact .refl world
      · exact world.unwritten_record _ _

theorem unwritten_react_failed (world : World σ) (demand : Demand) (fault : Fault) :
    world.Unwritten (demand.react world (.failed fault)).2 := by
  cases demand with
  | read how target => exact unwritten_deliver ..
  | forward | finish | wildcards => exact .refl world

/-- Only a re-export of a name writes. -/
theorem unwritten_react (unpaired : ∀ m source pair rest, demand ≠ .forward m source (pair :: rest))
    (world : World σ) (progress : Progress) : world.Unwritten (demand.react world progress).2 := by
  unfold react
  split
  · exact .refl world
  · exact unwritten_deliver ..
  · exact unwritten_deliver ..
  · exact .refl world
  · exact .refl world
  · exact absurd rfl (unpaired _ _ _ _)
  · exact .refl world
  · exact world.unwritten_record _ _
  · exact .refl world
  · exact .refl world
  · exact .refl world

theorem unwritten_proceed
    (unpaired : ∀ m source pair rest, demand ≠ .forward m source (pair :: rest)) (world : World σ) :
    world.Unwritten (demand.proceed world).2 := by
  unfold proceed
  split
  · split
    · split
      · exact .refl world
      · exact unwritten_deliver ..
    · exact unwritten_deliver ..
  · exact .refl world
  · exact absurd rfl (unpaired _ _ _ _)
  · exact .refl world
  · exact .refl world

end Demand

namespace Machine

variable {machine : Machine σ} {world : World σ} {m : ModuleId} {name : String}

theorem unwritten_runHooks (m : ModuleId) (after : After) (stack : List (Frame σ))
    (world : World σ) (hooks : List (Hook σ)) :
    world.Unwritten (runHooks m after stack world hooks).world := by
  unfold runHooks
  split
  · exact world.unwritten_record m _
  · split <;> exact .refl world

theorem unwritten_load (m : ModuleId) (after : After) (stack : List (Frame σ)) (world : World σ) :
    world.Unwritten (load m after stack world).world := by
  unfold load
  split
  · exact unwritten_runHooks ..
  · have loaded : world.Unwritten (world.update m Module.load) :=
      world.unwritten_update m fun _ => rfl
    exact (loaded.trans (World.unwritten_record _ m _)).trans (unwritten_runHooks ..)

theorem unwritten_resumed (m : ModuleId) (body : Body σ) (world : World σ) (event : Event) :
    world.Unwritten ((world.update m (·.resumed body)).record m event) :=
  (world.unwritten_turn m (.began m body)).trans (World.unwritten_record _ m event)

theorem unwritten_advance {demand : Demand}
    (unpaired : ∀ m source pair rest, demand ≠ .forward m source (pair :: rest)) (m : ModuleId)
    (stack : List (Frame σ)) (world : World σ) :
    world.Unwritten (advance demand m stack world).world := by
  unfold advance
  split
  · exact (world.unwritten_record m _).trans (Demand.unwritten_react unpaired ..)
  · split
    · exact Demand.unwritten_react unpaired ..
    · exact Demand.unwritten_react unpaired ..
    · exact Demand.unwritten_react unpaired ..
    · exact unwritten_resumed ..

theorem unwritten_resumeFrame (stack : List (Frame σ)) (world : World σ) (frame : Frame σ)
    (outcome : Outcome) : world.Unwritten (resumeFrame stack world frame outcome).world := by
  unfold resumeFrame
  split
  · exact .refl world
  · next m _ _ message => exact world.unwritten_turn m (.unwound m message)
  · next m _ _ cause =>
    exact ((world.unwritten_turn m (.failed m cause)).trans (World.unwritten_record _ m _)).trans
      (Demand.unwritten_react_failed ..)
  · next m _ _ value =>
    split
    · exact world.unwritten_turn m (.yielded m value)
    · exact ((world.unwritten_turn m (.completed m value)).trans
        (World.unwritten_record _ m _)).trans (unwritten_load ..)
  · next m _ _ => exact world.unwritten_turn m (.dropped m)
  · next m body _ =>
    exact (world.unwritten_turn m (.attached m body)).trans (World.unwritten_record _ m _)
  · exact .refl world
  · exact unwritten_runHooks ..

theorem unwritten_importer (m : ModuleId) (hook : ModuleId → Program σ)
    (next : Outcome → Program σ) (stack : List (Frame σ)) (world : World σ) :
    world.Unwritten (importer m hook next stack world).world := by
  unfold importer
  split
  · refine World.Unwritten.trans ?_ (World.unwritten_record _ m _)
    exact world.unwritten_update m fun _ => rfl
  · refine World.Unwritten.trans ?_ (unwritten_runHooks ..)
    exact world.unwritten_update m fun _ => rfl

/-- A program writes names with its actions and its commits only. -/
theorem unwritten_stepProgram {program : Program σ}
    (passive : ∀ action next, program ≠ .act action next)
    (uncommitted : ∀ m entries next, program ≠ .commit m entries next) (stack : List (Frame σ))
    (world : World σ) : world.Unwritten (stepProgram stack world program).world := by
  cases program with
  | done outcome =>
    cases stack with
    | nil => exact .refl world
    | cons frame rest => exact unwritten_resumeFrame ..
  | act action next => exact absurd rfl (passive action next)
  | commit m entries next => exact absurd rfl (uncommitted m entries next)
  | execute m factory code ending next =>
    simp only [stepProgram, execute]
    split
    · exact world.unwritten_turn m (.making m)
    · exact .refl world
  | importer m hook next => exact unwritten_importer ..
  | call callee arguments next =>
    simp only [stepProgram, call]
    split
    · split <;> exact .refl world
    · exact .refl world
  | resume id m next =>
    simp only [stepProgram, resume]
    split
    · exact .of_modules_eq rfl
    · exact .refl world
  | demand | remaining => exact .refl world
  | host | function | detach => exact .of_modules_eq rfl

/-- The names of a module after the next transition: an export or a commit that passes its check, a
merge, and one pair of a re-export whose other module goes no further write into them. -/
def rewritten (machine : Machine σ) (m : ModuleId) : Module σ :=
  match machine.control with
  | .run (.act (.settle n name value) _) =>
    if n = m ∧ (machine.world.module m).declares name = true then
      (machine.world.module m).bind name value
    else machine.world.module m
  | .run (.act (.merge n source) _) =>
    if n = m then ((machine.world.module m).defineAll (machine.world.offered source)).countMerge
    else machine.world.module m
  | .run (.commit n entries _) =>
    if n = m ∧ (machine.world.module m).firstUndeclared? entries = none then
      (machine.world.module m).bindAll entries
    else machine.world.module m
  | .demand (.forward n source ((localName, remoteName) :: _)) =>
    if n = m ∧ machine.world.halts source remoteName = true then
      (machine.world.module m).define localName ((machine.world.module source).peek remoteName)
    else machine.world.module m
  | _ => machine.world.module m

theorem rewritten_of_unwritten (unwritten : machine.world.Unwritten machine.step.world)
    (same : machine.rewritten m = machine.world.module m) :
    (machine.step.world.module m).surface = (machine.rewritten m).surface := by
  rw [same]
  exact unwritten.surface m

theorem surface_step_settle {n : ModuleId} {other : String} {value : Value}
    {next : Except Fault Unit → Program σ}
    (settles : machine.control = .run (.act (.settle n other value) next)) (made : m ∈ machine.world) :
    (machine.step.world.module m).surface = (machine.rewritten m).surface := by
  obtain ⟨control, stack, world⟩ := machine
  cases settles
  have performs : (step ⟨.run (.act (.settle n other value) next), stack, world⟩).world =
      (world.settle n other value).2 := rfl
  simp only [performs, World.settle, rewritten]
  cases declared : (world.module n).declares other with
  | false =>
    rw [if_neg Bool.false_ne_true, if_neg]
    rintro ⟨rfl, passes⟩
    cases declared.symm.trans passes
  | true =>
    rw [if_pos rfl]
    by_cases here : n = m
    · subst here
      have recorded : n ∈ world.record n (.settled n other value) := by
        rwa [World.mem_iff, World.modules_record]
      rw [World.module_update_self _ recorded, World.module_record, if_pos ⟨rfl, declared⟩]
    · rw [if_neg fun passes => here passes.1, World.module_update_of_ne _ (Ne.symm here),
        World.module_record]

theorem surface_step_merge {n source : ModuleId} {next : Unit → Program σ}
    (merges : machine.control = .run (.act (.merge n source) next)) (made : m ∈ machine.world) :
    (machine.step.world.module m).surface = (machine.rewritten m).surface := by
  obtain ⟨control, stack, world⟩ := machine
  cases merges
  simp only [step, stepProgram, Action.perform, World.merge, rewritten, World.module_record]
  by_cases here : n = m
  · subst here
    rw [if_pos rfl, World.module_update_self _ made]
  · rw [if_neg here, World.module_update_of_ne _ (Ne.symm here)]

theorem module_settleAll_self (made : m ∈ world) (entries : List (String × Value)) :
    (world.settleAll m entries).module m = (world.module m).bindAll entries := by
  unfold World.settleAll Module.bindAll
  induction entries generalizing world with
  | nil => rfl
  | cons entry rest ih =>
    have recorded : m ∈ world.record m (.settled m entry.1 entry.2) := by
      rwa [World.mem_iff, World.modules_record]
    rw [List.foldl_cons, List.foldl_cons, ih (by rwa [World.mem_iff, World.length_update]),
      World.module_update_self _ recorded, World.module_record]

theorem surface_step_commit {n : ModuleId} {entries : List (String × Value)}
    {next : Outcome → Program σ} (commits : machine.control = .run (.commit n entries next))
    (made : m ∈ machine.world) :
    (machine.step.world.module m).surface = (machine.rewritten m).surface := by
  obtain ⟨control, stack, world⟩ := machine
  cases commits
  simp only [step, stepProgram, commit_eq, rewritten]
  cases check : (world.module n).firstUndeclared? entries with
  | some name =>
    rw [if_neg]
    rintro ⟨rfl, passes⟩
    cases check.symm.trans passes
  | none =>
    generalize marked : world.record n (.committed n (world.module n).state) = committed
    have same : committed.module m = world.module m := by rw [← marked, World.module_record]
    have there : m ∈ committed := by rwa [← marked, World.mem_iff, World.modules_record]
    have written : ((committed.settleAll n entries).module m).surface =
        (if n = m ∧ (world.module m).firstUndeclared? entries = none then
          (world.module m).bindAll entries else world.module m).surface := by
      by_cases here : n = m
      · subst here
        rw [if_pos ⟨rfl, check⟩, module_settleAll_self there, same]
      · rw [if_neg fun passes => here passes.1, World.module_settleAll_of_ne _ (Ne.symm here), same]
    have loads (stack : List (Frame σ)) :=
      (unwritten_load n (.answer .unit) stack (committed.settleAll n entries)).surface m
    dsimp only
    split
    · exact (loads _).trans written
    · exact (loads _).trans written
    · exact written

/-- A re-export writes one pair at a time, once the other module goes no further. -/
theorem surface_step_forward {n source : ModuleId} {localName remoteName : String}
    {rest : List (String × String)}
    (takes : machine.control = .demand (.forward n source ((localName, remoteName) :: rest)))
    (made : m ∈ machine.world) :
    (machine.step.world.module m).surface = (machine.rewritten m).surface := by
  obtain ⟨control, stack, world⟩ := machine
  cases takes
  have defines (noted : World σ) (modules : noted.modules = world.modules) (value : Option Value) :
      (noted.forward n source localName remoteName value).module m =
        if n = m then (world.module m).define localName value else world.module m := by
    have same := World.module_eq_of_modules_eq modules m
    by_cases here : n = m
    · subst here
      have there : n ∈ noted := by rwa [World.mem_iff, modules]
      rw [if_pos rfl, World.module_forward_self there, same]
    · rw [if_neg here, World.module_forward_of_ne _ (Ne.symm here), same]
  simp only [step, stepDemand, Demand.awaited?, rewritten]
  cases lacks : (world.module source).lacks remoteName with
  | false =>
    have halts : world.halts source remoteName = true := by simp [World.halts, lacks]
    simp only [halts, and_true]
    exact congrArg Module.surface (defines world rfl _)
  | true =>
    have missing := Module.peek_of_lacks lacks
    simp only [if_true, advance]
    cases held : (world.module source).held with
    | true =>
      have halts : world.halts source remoteName = true := by simp [World.halts, held]
      simp only [if_true, halts, and_true, missing]
      exact congrArg Module.surface (defines _ (World.modules_record ..) none)
    | false =>
      simp only [World.halts, lacks, held, missing]
      cases (world.module source).slot.readiness with
      | failed cause => exact congrArg Module.surface (if_neg (by simp)).symm
      | idle => exact congrArg Module.surface ((defines world rfl none).trans (by simp))
      | exhausted => exact congrArg Module.surface ((defines world rfl none).trans (by simp))
      | ready body =>
        refine Eq.trans ?_ (congrArg Module.surface (if_neg (by simp)).symm)
        exact (unwritten_resumed ..).surface m

/-- A transition writes what the operations tell, and it leaves all other names as they are. -/
theorem surface_step (made : m ∈ machine.world) :
    (machine.step.world.module m).surface = (machine.rewritten m).surface := by
  obtain ⟨control, stack, world⟩ := machine
  cases control with
  | demand demand =>
    by_cases paired : ∃ n source pair rest, demand = .forward n source (pair :: rest)
    · obtain ⟨n, source, pair, rest, rfl⟩ := paired
      exact surface_step_forward rfl made
    · have unpaired : ∀ n source pair rest, demand ≠ .forward n source (pair :: rest) :=
        fun n source pair rest same => paired ⟨n, source, pair, rest, same⟩
      refine rewritten_of_unwritten ?_ ?_
      · simp only [step, stepDemand]
        split
        · exact unwritten_advance unpaired ..
        · exact Demand.unwritten_proceed unpaired world
      · unfold rewritten
        split
        · next run => cases run
        · next run => cases run
        · next run => cases run
        · next same =>
          cases same
          exact absurd rfl (unpaired _ _ _ _)
        · rfl
  | run program =>
    cases program with
    | act action next =>
      cases action with
      | settle => exact surface_step_settle rfl made
      | merge => exact surface_step_merge rfl made
      | create names config =>
        exact congrArg Module.surface (World.module_create_of_mem made names config)
      | prepare id names => exact congrArg Module.surface (World.module_prepare_of_mem made id names)
      | _ => rfl
    | commit => exact surface_step_commit rfl made
    | done | host | demand | execute | importer | function | call | detach | resume | remaining =>
      refine rewritten_of_unwritten (unwritten_stepProgram ?_ ?_ stack world) rfl
      · intro _ _ same
        cases same
      · intro _ _ _ same
        cases same

end Machine

end LiveBindings
