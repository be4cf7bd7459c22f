import LiveBindings.Operation
import LiveBindings.Proofs.Origin

namespace LiveBindings

open Machine

variable {σ : Type} {allowed : Program σ → Prop}

theorem Module.mem_declaredBy {names : List ExportName} {name : String} :
    name ∈ declaredBy names ↔ name = defaultExport ∨ .named name ∈ names := by
  induction names with
  | nil =>
    rw [declaredBy, NameSet.mem_add]
    simp [Table.mem_iff]
  | cons entry rest ih =>
    cases entry with
    | named other =>
      rw [declaredBy, NameSet.mem_add, ih, List.mem_cons, ExportName.named.injEq]
      exact or_left_comm
    | wildcard =>
      rw [declaredBy, ih, List.mem_cons]
      simp

namespace Trail

variable {machine earlier : Machine σ} {past : List (Machine σ)} {m : ModuleId} {name : String}

theorem grows (trail : Trail allowed machine past) (member : earlier ∈ past) :
    earlier.world.Grows machine.world := by
  have precedes := trail.precedes member
  exact earlier.grows_step.trans precedes.grows

theorem not_mem_of_not_mem (trail : Trail allowed machine past) (missing : m ∉ machine.world)
    (member : earlier ∈ past) : m ∉ earlier.world := fun made =>
  missing ((trail.grows member).mem made)

end Trail

namespace Machine

variable {machine : Machine σ} {m : ModuleId} {name : String}

theorem mem_of_brings (brings : machine.brings m name = true) : m ∈ machine.world := by
  unfold Machine.brings at brings
  split at brings
  · obtain ⟨rfl, made, _⟩ := of_decide_eq_true brings
    exact made
  · obtain ⟨rfl, made, _⟩ := of_decide_eq_true brings
    exact made
  · cases brings

theorem mem_of_mergesInto (merges : machine.mergesInto m = true) : m ∈ machine.world := by
  unfold mergesInto at merges
  split at merges
  · obtain ⟨rfl, made⟩ := of_decide_eq_true merges
    exact made
  · cases merges

/-- What is true of the names of a module that was made with the given exports. -/
structure KeepsNames (machine : Machine σ) (past : List (Machine σ)) (m : ModuleId)
    (names : List ExportName) : Prop where
  made : ∃ earlier ∈ past, earlier.makes? m = some names
  /-- Each declared name was there from the start, or a re-export or a merge into the module took it
  from another one. -/
  declares : ∀ name, (machine.world.module m).declares name = true ↔
    name = defaultExport ∨ .named name ∈ names ∨ ∃ earlier ∈ past, earlier.brings m name = true
  sealed : ∀ name, ((machine.world.module m).peek name).isSome = true →
    (machine.world.module m).declares name = true
  /-- The list of the names has each of them once, in increasing order. -/
  listed : (machine.world.module m).declared.keys.Pairwise (· < ·) ∧
    ∀ name, name ∈ (machine.world.module m).declared.keys ↔
      (machine.world.module m).declares name = true
  wildcards : (machine.world.module m).wildcards = names.count .wildcard
  /-- The merges into the module were counted, and nothing else was. -/
  merges : (machine.world.module m).merges = past.countP (·.mergesInto m)
  pending : ((machine.world.module m).pendingWildcards : Int) =
    max 0 (names.count .wildcard - past.countP (·.mergesInto m))
  /-- Nothing was taken away since any earlier machine, whatever failed or panicked in between. -/
  grows : ∀ earlier ∈ past, m ∈ earlier.world →
    (earlier.world.module m).Grows (machine.world.module m)
  /-- An export of a name that is not declared fails, and changes nothing. -/
  export_refused : ∀ name value next, machine.control = .run (.act (.settle m name value) next) →
    (machine.world.module m).declares name = false → machine.step =
      ⟨.run (next (.error (.undeclaredExport (machine.world.label m) name))), machine.stack,
        machine.world⟩
  /-- A commit with a name that is not declared fails, and changes nothing. -/
  commit_refused : ∀ entries next, machine.control = .run (.commit m entries next) →
    (∃ entry ∈ entries, (machine.world.module m).declares entry.1 = false) →
    ∃ entry ∈ entries, (machine.world.module m).declares entry.1 = false ∧ machine.step =
      ⟨.run (next (.failed (.undeclaredExport (machine.world.label m) entry.1))), machine.stack,
        machine.world⟩

theorem step_of_export_refused {value : Value} {next : Except Fault Unit → Program σ}
    (control : machine.control = .run (.act (.settle m name value) next))
    (undeclared : (machine.world.module m).declares name = false) : machine.step =
      ⟨.run (next (.error (.undeclaredExport (machine.world.label m) name))), machine.stack,
        machine.world⟩ := by
  obtain ⟨_, stack, world⟩ := machine
  cases control
  have fails : world.settle m name value =
      (.error (.undeclaredExport (world.label m) name), world) := by
    rw [World.settle, if_neg (Bool.eq_false_iff.mp undeclared)]
  have performs : Action.perform world (.settle m name value) = world.settle m name value := rfl
  simp only [step, stepProgram, performs, fails]

theorem step_of_commit_refused {entries : List (String × Value)} {next : Outcome → Program σ}
    (control : machine.control = .run (.commit m entries next))
    (undeclared : ∃ entry ∈ entries, (machine.world.module m).declares entry.1 = false) :
    ∃ entry ∈ entries, (machine.world.module m).declares entry.1 = false ∧ machine.step =
      ⟨.run (next (.failed (.undeclaredExport (machine.world.label m) entry.1))), machine.stack,
        machine.world⟩ := by
  obtain ⟨_, stack, world⟩ := machine
  cases control
  cases check : (world.module m).firstUndeclared? entries with
  | none =>
    obtain ⟨entry, member, missing⟩ := undeclared
    have declared : ∀ entry ∈ entries, (world.module m).declares entry.1 = true := by
      simpa [Module.firstUndeclared?] using check
    cases missing.symm.trans (declared entry member)
  | some name =>
    have missing := List.find?_some check
    have among := List.mem_of_find?_eq_some check
    obtain ⟨entry, member, rfl⟩ := List.mem_map.mp among
    refine ⟨entry, member, by simpa using missing, ?_⟩
    simp only [step, stepProgram, commit_eq, check]

end Machine

namespace Trail

variable {machine : Machine σ} {past : List (Machine σ)} {m : ModuleId}

/-- The exports that a module was made with, and what became of them. -/
theorem exists_names (trail : Trail allowed machine past) (made : m ∈ machine.world) :
    ∃ names, (∃ earlier ∈ past, earlier.makes? m = some names) ∧
      (∀ name, (machine.world.module m).declares name = true ↔
        name = defaultExport ∨ .named name ∈ names ∨
          ∃ earlier ∈ past, earlier.brings m name = true) ∧
      (machine.world.module m).wildcards = names.count .wildcard ∧
      (machine.world.module m).merges = past.countP (·.mergesInto m) := by
  induction trail with
  | start => exact absurd made (Nat.not_lt_zero m)
  | next _ _ _ ih => exact ih made
  | @step machine past trail ih =>
    by_cases old : m ∈ machine.world
    · obtain ⟨names, ⟨maker, member, makes⟩, declares, wildcards, merges⟩ := ih old
      refine ⟨names, ⟨maker, List.mem_cons_of_mem _ member, makes⟩, fun name => ?_, ?_, ?_⟩
      · rw [declares_step old, Bool.or_eq_true, declares name]
        simp only [List.mem_cons, exists_eq_or_imp]
        exact or_left_comm.trans (or_congr_right or_left_comm)
      · exact ((machine.grows_step.module m old).wildcards).trans wildcards
      · rw [merges_step old, merges, List.countP_cons]
    -- The module is new, so nothing that went before was about it.
    · obtain ⟨names, config, makes, fresh⟩ := exists_makes old made
      have unmade : ∀ earlier ∈ machine :: past, m ∉ earlier.world := by
        intro earlier member
        rcases List.mem_cons.mp member with rfl | before
        · exact old
        · exact trail.not_mem_of_not_mem old before
      refine ⟨names, ⟨machine, List.mem_cons_self, makes⟩, fun name => ?_, ?_, ?_⟩
      · rw [fresh]
        refine Module.mem_declaredBy.trans (or_congr_right (or_iff_left ?_).symm)
        rintro ⟨earlier, member, brings⟩
        exact unmade earlier member (mem_of_brings brings)
      · rw [fresh]
        rfl
      · rw [fresh]
        refine (List.countP_eq_zero.mpr fun earlier member merges => ?_).symm
        exact unmade earlier member (mem_of_mergesInto merges)

end Trail

/-- In every run, each module has kept the names that it was made with and those that were taken into
it since. -/
theorem names_kept {machine : Machine σ} {past : List (Machine σ)} {m : ModuleId}
    (trail : Trail allowed machine past) (made : m ∈ machine.world) :
    ∃ names, machine.KeepsNames past m names := by
  obtain ⟨names, makes, declares, wildcards, merges⟩ := trail.exists_names made
  refine ⟨names, makes, declares, trail.run.sealed m, ⟨Table.keys_sorted _, fun name => ?_⟩,
    wildcards, merges, ?_, fun earlier member old => (trail.grows member).module m old,
    fun _ _ _ => step_of_export_refused, fun _ _ => step_of_commit_refused⟩
  · exact Table.mem_keys
  · rw [Module.pendingWildcards, wildcards, merges]
    omega

/-- A module with one wildcard takes all names of another module, and then one of them under a name of
its own. It is at last asked to export a name that it does not declare. -/
def gathering : Program Unit :=
  Code.program do
    let source ← Code.create [.named "x"] .standard
    let m ← Code.create [.wildcard, .named "a"] .standard
    let _ ← Code.settle source "x" .null
    let _ ← Code.merge m source
    let _ ← Code.forward m source [("y", "x"), ("z", "w")]
    Code.settle m "b" .null

/-- The machine that is about to export the name. -/
def gathered : Machine Unit := (Machine.start gathering (.empty .standard ())).after 9

theorem names_kept_of_gathering :
    ∃ past names, gathered.KeepsNames past 1 names ∧
      (gathered.world.module 1).declared.keys = ["a", "default", "x", "y", "z"] ∧
      (gathered.world.module 1).pendingWildcards = 0 ∧
      ∃ next : Except Fault Unit → Program Unit, gathered.step =
        ⟨.run (next (.error (.undeclaredExport anonymousLabel "b"))), gathered.stack,
          gathered.world⟩ := by
  have trail : Trail (fun _ => True) gathered _ := (Trail.start .standard () trivial).after 9
  have made : 1 ∈ gathered.world := by
    show 1 < gathered.world.modules.length
    decide
  obtain ⟨names, keeps⟩ := names_kept trail made
  exact ⟨_, names, keeps, rfl, rfl, _, keeps.export_refused "b" .null _ rfl rfl⟩

end LiveBindings
