import LiveBindings.Proofs.Names
import Mathlib.Data.List.Dedup

namespace LiveBindings

open Machine

variable {σ : Type} {allowed : Program σ → Prop}

namespace World

variable {world : World σ} {id : String} {m : ModuleId}

theorem prepare_of_registered (found : world.registry.find? id = some m) (names : List ExportName) :
    world.prepare id names = (m, world) := by
  simp only [prepare, found]

theorem prepare_of_unregistered (unknown : world.registry.find? id = none) (names : List ExportName) :
    world.prepare id names = (world.modules.length,
      { (((world.log (.prepared id)).create names ⟨some id, world.template.policy⟩).2) with
        registry := world.registry.insert id world.modules.length }) := by
  simp only [prepare, unknown]
  rfl

/-- After it was prepared, an identifier has the module that was given, and the others have theirs. -/
theorem find?_prepare (world : World σ) (id : String) (names : List ExportName) (other : String) :
    (world.prepare id names).2.registry.find? other =
      if other = id then some (world.prepare id names).1 else world.registry.find? other := by
  cases found : world.registry.find? id with
  | some m =>
    rw [prepare_of_registered found]
    split
    · next same => rw [same, found]
    · rfl
  | none =>
    rw [prepare_of_unregistered found]
    exact Table.find?_insert ..

theorem template_prepare (world : World σ) (id : String) (names : List ExportName) :
    (world.prepare id names).2.template = world.template := by
  unfold prepare
  split <;> rfl

end World

namespace Machine

variable {machine : Machine σ} {id : String} {m : ModuleId}

/-- The identifier that the next transition prepares, if it prepares one. -/
def prepares? (machine : Machine σ) : Option String :=
  match machine.control with
  | .run (.act (.prepare id _) _) => some id
  | _ => none

theorem exists_of_prepares? (prepares : machine.prepares? = some id) :
    ∃ names next, machine.control = .run (.act (.prepare id names) next) := by
  unfold prepares? at prepares
  split at prepares
  · next names next control =>
    cases prepares
    exact ⟨names, next, control⟩
  · cases prepares

theorem step_of_prepare {names : List ExportName} {next : ModuleId → Program σ}
    (control : machine.control = .run (.act (.prepare id names) next)) :
    machine.step = ⟨.run (next (machine.world.prepare id names).1), machine.stack,
      (machine.world.prepare id names).2⟩ := by
  obtain ⟨_, stack, world⟩ := machine
  cases control
  rfl

theorem step_of_lookup {next : Option ModuleId → Program σ}
    (control : machine.control = .run (.act (.lookup id) next)) :
    machine.step = ⟨.run (next (machine.world.registry.find? id)), machine.stack, machine.world⟩ := by
  obtain ⟨_, stack, world⟩ := machine
  cases control
  rfl

theorem step_of_registered {next : Bool → Program σ}
    (control : machine.control = .run (.act (.registered id) next)) :
    machine.step =
      ⟨.run (next (machine.world.registry.contains id)), machine.stack, machine.world⟩ := by
  obtain ⟨_, stack, world⟩ := machine
  cases control
  rfl

theorem step_of_identifiers {next : List String → Program σ}
    (control : machine.control = .run (.act .identifiers next)) :
    machine.step = ⟨.run (next machine.world.registry.keys), machine.stack, machine.world⟩ := by
  obtain ⟨_, stack, world⟩ := machine
  cases control
  rfl

theorem step_of_registrySize {next : Nat → Program σ}
    (control : machine.control = .run (.act .registrySize next)) :
    machine.step = ⟨.run (next machine.world.registry.size), machine.stack, machine.world⟩ := by
  obtain ⟨_, stack, world⟩ := machine
  cases control
  rfl

theorem step_of_registryIsEmpty {next : Bool → Program σ}
    (control : machine.control = .run (.act .registryIsEmpty next)) :
    machine.step = ⟨.run (next machine.world.registry.isEmpty), machine.stack, machine.world⟩ := by
  obtain ⟨_, stack, world⟩ := machine
  cases control
  rfl

/-- The next transition makes a module for an identifier, labelled with it and otherwise configured as the
template says, with the names that were asked for. It leaves all other modules alone. -/
structure MakesFor (machine : Machine σ) (id : String) (names : List ExportName)
    (next : ModuleId → Program σ) (m : ModuleId) : Prop where
  missing : m ∉ machine.world
  made : m ∈ machine.step.world
  given : machine.step.control = .run (next m)
  waits : machine.step.stack = machine.stack
  fresh : machine.step.world.module m = .fresh names ⟨some id, machine.world.template.policy⟩
  others : ∀ other ≠ m, machine.step.world.module other = machine.world.module other

theorem makesFor_of_prepare {names : List ExportName} {next : ModuleId → Program σ}
    (control : machine.control = .run (.act (.prepare id names) next))
    (unknown : machine.world.registry.find? id = none) :
    machine.MakesFor id names next machine.world.modules.length := by
  have steps := step_of_prepare control
  rw [World.prepare_of_unregistered unknown] at steps
  have modules (other : ModuleId) : machine.step.world.module other =
      if other = machine.world.modules.length then
        .fresh names ⟨some id, machine.world.template.policy⟩
      else machine.world.module other := by
    rw [steps]
    exact World.module_create (machine.world.log (.prepared id)) names _ other
  refine ⟨Nat.lt_irrefl _, ?_, by rw [steps], by rw [steps], ?_, fun other differs => ?_⟩
  · rw [steps, World.mem_iff]
    simp [World.create, World.log]
  · rw [modules, if_pos rfl]
  · rw [modules, if_neg differs]

/-- Only a preparation writes to the registry, and it leaves the template alone. -/
theorem kept_of_quiet (quiet : machine.prepares? = none) :
    machine.step.world.registry = machine.world.registry ∧
      machine.step.world.template = machine.world.template := by
  by_cases sets : ∃ program, machine.control = .run program ∧ program.Sets
  · obtain ⟨program, control, sets⟩ := sets
    obtain ⟨_, stack, world⟩ := machine
    cases control
    cases program with
    | host | function | detach => exact ⟨rfl, rfl⟩
    | resume id n next =>
      simp only [step, stepProgram, resume]
      split <;> exact ⟨rfl, rfl⟩
    | act action next =>
      cases action with
      | create => exact ⟨rfl, rfl⟩
      | prepare => cases quiet
      | _ => cases sets
    | _ => cases sets
  · have same := setting_step fun program control changes => sets ⟨program, control, changes⟩
    have registry := congrArg World.registry same
    have template := congrArg World.template same
    exact ⟨registry, template⟩

theorem template_step (machine : Machine σ) :
    machine.step.world.template = machine.world.template := by
  cases prepares : machine.prepares? with
  | none => exact (kept_of_quiet prepares).2
  | some id =>
    obtain ⟨names, next, control⟩ := exists_of_prepares? prepares
    rw [step_of_prepare control, World.template_prepare]

/-- What is registered stays so. -/
theorem find?_step_of_registered (found : machine.world.registry.find? id = some m) :
    machine.step.world.registry.find? id = some m := by
  cases prepares : machine.prepares? with
  | none => rw [(kept_of_quiet prepares).1, found]
  | some other =>
    obtain ⟨names, next, control⟩ := exists_of_prepares? prepares
    rw [step_of_prepare control, World.find?_prepare]
    by_cases same : id = other
    · subst same
      rw [if_pos rfl, World.prepare_of_registered found]
    · rw [if_neg same, found]

/-- An identifier was prepared in one of the transitions so far. -/
def Prepared (past : List (Machine σ)) (id : String) : Prop :=
  ∃ earlier ∈ past, earlier.prepares? = some id

/-- A module is the one that every preparation of an identifier so far has given. -/
structure Identifies (machine : Machine σ) (past : List (Machine σ)) (id : String) (m : ModuleId) :
    Prop where
  made : m ∈ machine.world
  config : (machine.world.module m).config = ⟨some id, machine.world.template.policy⟩
  given : ∀ earlier ∈ past, ∀ names next, earlier.control = .run (.act (.prepare id names) next) →
    earlier.step.control = .run (next m)

theorem Identifies.step {past : List (Machine σ)} (identifies : machine.Identifies past id m)
    (gives : ∀ names next, machine.control = .run (.act (.prepare id names) next) →
      machine.step.control = .run (next m)) :
    machine.step.Identifies (machine :: past) id m := by
  have grows := machine.grows_step
  refine ⟨grows.mem identifies.made, ?_, fun earlier member names next control => ?_⟩
  · rw [(grows.module m identifies.made).config, identifies.config, machine.template_step]
  · rcases List.mem_cons.mp member with rfl | before
    · exact gives names next control
    · exact identifies.given earlier before names next control

theorem MakesFor.identifies {past : List (Machine σ)} {names : List ExportName}
    {next : ModuleId → Program σ} (makes : machine.MakesFor id names next m)
    (control : machine.control = .run (.act (.prepare id names) next))
    (unprepared : ¬ Prepared past id) : machine.step.Identifies (machine :: past) id m := by
  refine ⟨makes.made, ?_, fun earlier member names next again => ?_⟩
  · rw [makes.fresh, machine.template_step]
    rfl
  · rcases List.mem_cons.mp member with rfl | before
    · cases control.symm.trans again
      exact makes.given
    · exact absurd ⟨earlier, before, by rw [prepares?, again]⟩ unprepared

end Machine

namespace Trail

variable {machine : Machine σ} {past : List (Machine σ)} {id : String} {m : ModuleId}

theorem isSome_find? (trail : Trail allowed machine past) (id : String) :
    (machine.world.registry.find? id).isSome = true ↔ Prepared past id := by
  induction trail with
  | start =>
    refine iff_of_false Bool.false_ne_true ?_
    rintro ⟨earlier, member, _⟩
    cases member
  | next _ _ _ ih => exact ih
  | @step machine past _ ih =>
    have split : Prepared (machine :: past) id ↔ machine.prepares? = some id ∨ Prepared past id := by
      simp only [Prepared, List.mem_cons, exists_eq_or_imp]
    cases prepares : machine.prepares? with
    | none =>
      rw [(kept_of_quiet prepares).1, ih, split, prepares]
      simp
    | some other =>
      obtain ⟨names, next, control⟩ := exists_of_prepares? prepares
      rw [step_of_prepare control, World.find?_prepare, split, prepares, Option.some.injEq]
      by_cases same : id = other
      · exact iff_of_true (by rw [if_pos same]; rfl) (.inl same.symm)
      · rw [if_neg same, ih, or_iff_right (Ne.symm same)]

/-- What is registered for an identifier is the module that its preparations gave. -/
theorem identifies (trail : Trail allowed machine past)
    (found : machine.world.registry.find? id = some m) : machine.Identifies past id m := by
  induction trail with
  | start => cases found
  | next _ _ _ ih =>
    obtain ⟨made, config, given⟩ := ih found
    exact ⟨made, config, given⟩
  | @step machine past trail ih =>
    cases prepares : machine.prepares? with
    | none =>
      rw [(kept_of_quiet prepares).1] at found
      refine (ih found).step fun names next control => ?_
      rw [prepares?, control] at prepares
      cases prepares
    | some other =>
      obtain ⟨names, next, control⟩ := exists_of_prepares? prepares
      have steps := step_of_prepare control
      by_cases same : id = other
      · subst same
        rw [steps, World.find?_prepare, if_pos rfl] at found
        cases before : machine.world.registry.find? id with
        | some n =>
          rw [World.prepare_of_registered before] at found steps
          cases found
          refine (ih before).step fun names next again => ?_
          cases control.symm.trans again
          rw [steps]
        | none =>
          rw [World.prepare_of_unregistered before] at found
          cases found
          refine (makesFor_of_prepare control before).identifies control fun prepared => ?_
          rw [← trail.isSome_find?, before] at prepared
          cases prepared
      · rw [steps, World.find?_prepare, if_neg same] at found
        refine (ih found).step fun names next again => ?_
        cases control.symm.trans again
        exact absurd rfl same

/-- What transitions keep of a world is still so later in the run. -/
theorem keeps (trail : Trail allowed machine past) (holds : World σ → Prop)
    (step : ∀ machine : Machine σ, holds machine.world → holds machine.step.world)
    {earlier : Machine σ} (member : earlier ∈ past) (before : holds earlier.world) :
    holds machine.world := by
  induction trail with
  | start => cases member
  | next _ _ _ ih => exact ih member
  | @step machine past _ ih =>
    refine step machine ?_
    rcases List.mem_cons.mp member with rfl | older
    · exact before
    · exact ih older

theorem mem_keys_iff (trail : Trail allowed machine past) (id : String) :
    id ∈ machine.world.registry.keys ↔ Prepared past id := by
  rw [Table.mem_keys, Table.mem_iff, trail.isSome_find?]

/-- There are as many identifiers as different ones were prepared. -/
theorem length_keys (trail : Trail allowed machine past) :
    machine.world.registry.keys.length = (past.filterMap prepares?).dedup.length := by
  refine List.Perm.length_eq ?_
  refine (List.perm_ext_iff_of_nodup (Table.keys_nodup _) (List.nodup_dedup _)).mpr fun id => ?_
  rw [trail.mem_keys_iff, List.mem_dedup, List.mem_filterMap]
  rfl

theorem template_eq (trail : Trail allowed machine past) {earlier : Machine σ}
    (member : earlier ∈ past) : machine.world.template = earlier.world.template :=
  trail.keeps (·.template = earlier.world.template)
    (fun machine same => machine.template_step.trans same) member rfl

theorem find?_of_earlier (trail : Trail allowed machine past) {earlier : Machine σ}
    (member : earlier ∈ past) (found : earlier.world.registry.find? id = some m) :
    machine.world.registry.find? id = some m :=
  trail.keeps (·.registry.find? id = some m) (fun _ => find?_step_of_registered) member found

end Trail

/-- Each identifier has one module of its own, from the first time that it is prepared on. -/
structure Machine.KeepsRegistry (machine : Machine σ) (past : List (Machine σ)) : Prop where
  template : ∀ earlier ∈ past, machine.world.template = earlier.world.template
  /-- The first preparation of an identifier makes its module. -/
  first : ∀ id names next, machine.control = .run (.act (.prepare id names) next) →
    ¬ Prepared past id → ∃ m, machine.MakesFor id names next m
  unknown : ∀ id next, machine.control = .run (.act (.lookup id) next) → ¬ Prepared past id →
    machine.step = ⟨.run (next none), machine.stack, machine.world⟩
  /-- All that ask for an identifier that was prepared get the same module, and change nothing. -/
  again : ∀ id, Prepared past id → ∃ m,
    machine.world.registry.find? id = some m ∧ machine.Identifies past id m ∧
      (∀ names next, machine.control = .run (.act (.prepare id names) next) →
        machine.step = ⟨.run (next m), machine.stack, machine.world⟩) ∧
      ∀ next, machine.control = .run (.act (.lookup id) next) →
        machine.step = ⟨.run (next (some m)), machine.stack, machine.world⟩
  kept : ∀ earlier ∈ past, ∀ id m, earlier.world.registry.find? id = some m →
    machine.world.registry.find? id = some m
  apart : ∀ id other m, machine.world.registry.find? id = some m →
    machine.world.registry.find? other = some m → id = other
  /-- The list of the identifiers has each one that was prepared once. -/
  listed : ∀ next, machine.control = .run (.act .identifiers next) → ∃ ids : List String,
    machine.step = ⟨.run (next ids), machine.stack, machine.world⟩ ∧ ids.Nodup ∧
      (∀ id, id ∈ ids ↔ Prepared past id) ∧ ids.length = (past.filterMap prepares?).dedup.length
  /-- An identifier is said to be there exactly if it was prepared. -/
  contained : ∀ id next, machine.control = .run (.act (.registered id) next) → ∃ answer : Bool,
    machine.step = ⟨.run (next answer), machine.stack, machine.world⟩ ∧
      (answer = true ↔ Prepared past id)
  /-- The size is the number of the identifiers that were prepared. -/
  sized : ∀ next, machine.control = .run (.act .registrySize next) → machine.step =
    ⟨.run (next (past.filterMap prepares?).dedup.length), machine.stack, machine.world⟩
  emptied : ∀ next, machine.control = .run (.act .registryIsEmpty next) → ∃ answer : Bool,
    machine.step = ⟨.run (next answer), machine.stack, machine.world⟩ ∧
      (answer = true ↔ ∀ id, ¬ Prepared past id)

/-- In every run, the registry gives each identifier that was prepared one module of its own. -/
theorem registry_kept {machine : Machine σ} {past : List (Machine σ)}
    (trail : Trail allowed machine past) : machine.KeepsRegistry past := by
  have unknown {id : String} (unprepared : ¬ Prepared past id) :
      machine.world.registry.find? id = none :=
    Option.not_isSome_iff_eq_none.mp (mt (trail.isSome_find? id).mp unprepared)
  refine ⟨fun earlier member => trail.template_eq member, ?_, ?_, ?_,
    fun earlier member id m found => trail.find?_of_earlier member found, ?_, ?_, ?_, ?_, ?_⟩
  · intro id names next control unprepared
    exact ⟨_, makesFor_of_prepare control (unknown unprepared)⟩
  · intro id next control unprepared
    rw [step_of_lookup control, unknown unprepared]
  · intro id prepared
    obtain ⟨m, found⟩ := Option.isSome_iff_exists.mp ((trail.isSome_find? id).mpr prepared)
    refine ⟨m, found, trail.identifies found, fun names next control => ?_, fun next control => ?_⟩
    · rw [step_of_prepare control, World.prepare_of_registered found]
    · rw [step_of_lookup control, found]
  · intro id other m found same
    have label := (trail.identifies found).config.symm.trans (trail.identifies same).config
    exact Option.some.inj (congrArg Config.label label)
  · intro next control
    exact ⟨_, step_of_identifiers control, Table.keys_nodup _, trail.mem_keys_iff, trail.length_keys⟩
  · intro id next control
    exact ⟨_, step_of_registered control, trail.isSome_find? id⟩
  · intro next control
    rw [step_of_registrySize control, ← Table.length_keys, trail.length_keys]
  · intro next control
    refine ⟨_, step_of_registryIsEmpty control, Table.isEmpty_iff.trans (forall_congr' fun id => ?_)⟩
    rw [Table.mem_iff, trail.isSome_find?]

/-- A module is prepared, and a body attached to it, whose factory prepares another one. The body prepares
the first one again, with other names, and looks up the second one and one that there is not. It settles
what it is told of the registry. -/
def preparing : Program Unit :=
  Code.program do
    let m ← Code.prepare "a" [.named "x"]
    let _ ← Code.executeStatements m (do
        let _ ← Code.prepare "b" []
        Code.unit)
      [fun m => do
        let _ ← Code.prepare "a" [.named "y", .wildcard]
        let _ ← Code.lookup "b"
        let _ ← Code.lookup "c"
        let _ ← Code.identifiers
        let known ← Code.isRegistered "b"
        let unknown ← Code.isRegistered "c"
        let size ← Code.registrySize
        let empty ← Code.registryIsEmpty
        Code.settle m "x"
          (.array [.boolean known, .boolean unknown, .boolean (size == 2), .boolean empty])]
    Code.finish m

def preparingAfter (count : Nat) : Machine Unit :=
  (Machine.start preparing (.empty ⟨some "template", .strict⟩ ())).after count

theorem registry_kept_of_preparing :
    let inner := preparingAfter 8
    let last := preparingAfter 17
    ∃ past later, inner.KeepsRegistry past ∧ inner.prepares? = some "a" ∧ inner.stack.length = 2 ∧
      inner.step.world = inner.world ∧ last.KeepsRegistry later ∧
      last.world.registry.entries = [("a", 0), ("b", 1)] ∧
      (last.world.module 0).config = ⟨some "a", .strict⟩ ∧
      (last.world.module 0).declared.keys = ["default", "x"] ∧
      (last.world.module 0).peek "x" =
        some (.array [.boolean true, .boolean false, .boolean true, .boolean false]) ∧
      (last.world.module 1).config = ⟨some "b", .strict⟩ := by
  intro inner last
  have trail (count : Nat) : Trail (fun _ => True) (preparingAfter count) _ :=
    (Trail.start ⟨some "template", .strict⟩ () trivial).after count
  have keeps := registry_kept (trail 8)
  obtain ⟨m, _, _, again, _⟩ := keeps.again "a" (((trail 8).isSome_find? "a").mp rfl)
  have unchanged := congrArg Machine.world (again _ _ rfl)
  exact ⟨_, _, keeps, rfl, rfl, unchanged, registry_kept (trail 17), rfl, rfl, rfl, rfl, rfl⟩

end LiveBindings
