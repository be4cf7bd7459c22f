import LiveBindings.Proofs.Pulling
import LiveBindings.Proofs.Reexport

namespace LiveBindings

open Machine

variable {σ : Type}

/-- The last of the values that were found for a name. -/
def lastFound (name : String) (entries : List (String × Option Value)) : Option Value :=
  entries.reverse.findSome? fun entry => if entry.1 = name then entry.2 else none

/-- A module has declared the names of a list, and settled each of them to the last value that was found
for it. Nothing else of it has changed. -/
structure Module.Redefined (entries : List (String × Option Value)) (before after : Module σ) :
    Prop where
  declares : ∀ name, after.declares name = true ↔
    name ∈ entries.map Prod.fst ∨ before.declares name = true
  peek : ∀ name, after.peek name = (lastFound name entries).or (before.peek name)
  kept : after = { before with declared := after.declared, bindings := after.bindings }

/-- Names of another module are taken one after another: each is read, and its local name is defined with
what the name then has. None of the reads hands over the failure of a body. -/
inductive World.Takes (m source : ModuleId) :
    World σ → List (String × String) → List (String × Option Value) → World σ → Prop
  | nil {world} : Takes m source world [] [] world
  | cons {world middle later localName name rest entries answer} :
      (Control.demand (.read .resolve (.named source name))).Ends world answer middle →
      answer.Calm → (∀ label cause, answer ≠ .failed (.failed label cause)) →
      Takes m source (middle.forward m source localName name ((middle.module source).peek name))
        rest entries later →
      Takes m source world ((localName, name) :: rest)
        ((localName, (middle.module source).peek name) :: entries) later

/-- How a re-export ends: with what it has taken under the local names, the names that it has pulled, and
its outcome. -/
inductive World.Reexports (m source : ModuleId) (world : World σ) (pairs : List (String × String)) :
    List (String × Option Value) → List String → Outcome → World σ → Prop
  | all {entries final} : Takes m source world pairs entries final →
      Reexports m source world pairs entries (pairs.map Prod.snd) .unit final
  /-- A read hands over the failure of the other module's body, and ends the re-export. -/
  | broken {taken localName name rest entries middle final cause} :
      pairs = taken ++ (localName, name) :: rest → Takes m source world taken entries middle →
      (Control.demand (.read .resolve (.named source name))).Ends middle
        (.failed (.failed (world.label source) cause)) final →
      (final.module source).slot.failure = some cause →
      Reexports m source world pairs entries (taken.map Prod.snd ++ [name])
        (.failed (.failed (world.label source) cause)) final

theorem lastFound_cons (name : String) (entry : String × Option Value)
    (rest : List (String × Option Value)) : lastFound name (entry :: rest) =
      (lastFound name rest).or (if entry.1 = name then entry.2 else none) := by
  rw [lastFound, List.reverse_cons, List.findSome?_append, List.findSome?_singleton]
  rfl

namespace Module.Redefined

variable {before after : Module σ} {entries : List (String × Option Value)}

theorem refl (module : Module σ) : module.Redefined [] module :=
  ⟨fun _ => by simp, fun _ => rfl, rfl⟩

theorem cons {name : String} {value : Option Value}
    (later : Redefined entries (before.define name value) after) :
    Redefined ((name, value) :: entries) before after where
  declares other := by
    rw [later.declares, declares_define, Bool.or_eq_true, decide_eq_true_iff, List.map_cons,
      List.mem_cons, or_assoc, or_left_comm]
  peek other := by
    rw [later.peek, peek_define, lastFound_cons, Option.or_assoc]
    simp only [eq_comm]
  kept := by
    rw [later.kept]
    cases value <;> rfl

end Module.Redefined

namespace World

variable {m source : ModuleId} {localName name : String} {pairs rest : List (String × String)}
  {entries : List (String × Option Value)} {pulled names : List String} {outcome : Outcome}
  {world middle later final other : World σ} {fault : Fault}

theorem Takes.map_fst (takes : Takes m source world pairs entries final) :
    entries.map Prod.fst = pairs.map Prod.fst := by
  induction takes with
  | nil => rfl
  | cons _ _ _ _ ih => rw [List.map_cons, List.map_cons, ih]

/-- Taking a value under one of the names makes no difference but for them. -/
theorem Near.forward (near : world.Near m names other) (made : m ∈ world) (member : localName ∈ names)
    (value : Option Value) : (world.forward m source localName name value).Near m names other := by
  have beside : world.Agrees (.but m) (world.forward m source localName name value) :=
    .of_setting (setting_forward ..) fun n differs => (module_forward_of_ne world differs ..).symm
  refine ⟨fun kind => ?_, beside.symm.trans near.beside, ?_⟩
  · rw [count_of_setting (setting_forward ..), near.counts kind]
  · rw [module_forward_self made]
    exact near.module.define member value

/-- A name that is taken before others comes first in what the re-export takes. -/
theorem Reexports.cons (pulls : Pulls source name world none middle) (made : source ∈ world)
    (differs : source ≠ m)
    (reexports : (middle.forward m source localName name ((middle.module source).peek name)).Reexports m
      source rest entries pulled outcome final) :
    world.Reexports m source ((localName, name) :: rest)
      ((localName, (middle.module source).peek name) :: entries) (name :: pulled) outcome final := by
  have label : (middle.forward m source localName name ((middle.module source).peek name)).label source =
      world.label source := by
    rw [World.label, module_forward_of_ne _ differs]
    exact pulls.grows.label made
  have calm := (middle.module source).calm_handed name none
  have sound := (middle.module source).handed_ne_failed name
  cases reexports with
  | all takes => exact .all (.cons pulls.ends_read calm sound takes)
  | broken split takes fails cause =>
    rw [label] at fails ⊢
    rw [split]
    exact .broken rfl (.cons pulls.ends_read calm sound takes) fails cause

/-- The programs that read names of a module. -/
def readers (source : ModuleId) (pulled : List String) : List (Program σ) :=
  pulled.map fun name => (Code.resolve source name).program

/-- Each read pulls its name, and the others follow in the world that it leaves. -/
theorem Pulls.performs {fault? : Option Fault} {answers : List Outcome}
    (pulls : Pulls source name world fault? middle)
    (performs : Performs middle (readers source pulled) answers later) :
    Performs world (readers source (name :: pulled))
      ((middle.module source).handed name fault? :: answers) later := by
  have ends : (Control.run (Code.resolve source name).program).Ends world
      ((middle.module source).handed name fault?) middle := Control.ends_demand.mpr pulls.ends_read
  exact (Performs.cons_iff ends).mpr ⟨answers, rfl, performs⟩

/-- In every world that is the same but for some names of a module, reads of other names lead to a world
that is the same but for them. -/
def ReadsAlike (m source : ModuleId) (names pulled : List String) (world final : World σ) : Prop :=
  ∀ other, world.Near m names other → ∃ answers later,
    Performs other (readers source pulled) answers later ∧ final.Near m names later

theorem ReadsAlike.cons (pulls : Pulls source name world none middle) (made : m ∈ middle)
    (differs : source ≠ m) (member : localName ∈ names)
    (inside : Inside (Overlooks m names)
      ⟨.demand (.forward m source ((localName, name) :: rest)), [], world⟩)
    (reads : ReadsAlike m source names pulled
      (middle.forward m source localName name ((middle.module source).peek name)) final) :
    ReadsAlike m source names (name :: pulled) world final := by
  intro other near
  obtain ⟨middle', pulls', near'⟩ := pulls.near_of_inside differs inside near
  obtain ⟨answers, later, performs, last⟩ := reads middle' (near'.forward made member _)
  exact ⟨_, later, pulls'.performs performs, last⟩

/-- A re-export that ends without a panic, from the first name that it pulls to the last one. -/
theorem exists_reexports (made : m ∈ world) (made' : source ∈ world) (differs : source ≠ m)
    (ends : (Control.demand (.forward m source pairs)).Ends world outcome final) (calm : outcome.Calm)
    (alone : Inside (LeavesAlone m) ⟨.demand (.forward m source pairs), [], world⟩) :
    ∃ entries pulled, world.Reexports m source pairs entries pulled outcome final ∧
      Module.Redefined entries (world.module m) (final.module m) ∧
      ∀ names, (∀ pair ∈ pairs, pair.1 ∈ names) →
        Inside (Overlooks m names) ⟨.demand (.forward m source pairs), [], world⟩ →
        ReadsAlike m source names pulled world final := by
  induction pairs generalizing world with
  | nil =>
    have taken : (Control.demand (.forward m source [])).Ends world .unit world :=
      fun stack => .of_step (step_of_unawaited rfl stack)
    obtain ⟨rfl, rfl⟩ := taken.unique ends
    refine ⟨[], [], .all .nil, .refl _, fun names _ _ other near => ?_⟩
    exact ⟨[], other, .nil, near⟩
  | cons pair rest ih =>
    obtain ⟨localName, name⟩ := pair
    obtain ⟨fault?, middle, pulls, follows⟩ := exists_pulls ends calm
    have kept := pulls.module_of_inside differs alone
    have still := pulls.grows.mem made
    cases fault? with
    | some fault =>
      obtain ⟨rfl, rfl⟩ := Control.ends_answer.mp follows
      obtain ⟨cause, rfl, failed⟩ := pulls.exists_cause made'
      refine ⟨[], [name], .broken rfl .nil pulls.ends_read failed, ?_, fun names _ inside other near => ?_⟩
      · rw [kept]
        exact .refl _
      · obtain ⟨later, pulls', near'⟩ := pulls.near_of_inside differs inside near
        exact ⟨_, later, pulls'.performs .nil, near'⟩
    | none =>
      have reach : Reaches ⟨.demand (.forward m source ((localName, name) :: rest)), [], world⟩
          ⟨.demand (.forward m source rest), [],
            middle.forward m source localName name ((middle.module source).peek name)⟩ :=
        pulls.reaches_take
      have grows := reach.grows
      obtain ⟨entries, pulled, reexports, redefined, reads⟩ :=
        ih (grows.mem made) (grows.mem made') follows (alone.of_reaches reach)
      rw [module_forward_self still, kept] at redefined
      refine ⟨_, name :: pulled, reexports.cons pulls made' differs, redefined.cons,
        fun names listed inside => ?_⟩
      obtain ⟨here, others⟩ := List.forall_mem_cons.mp listed
      exact .cons pulls still differs here inside (reads names others (inside.of_reaches reach))

end World

/-- A named re-export that ends without a panic, from a module that never changes the one it serves. The
names are pulled in their order, up to the first one whose read hands over the failure of the other
module's body, which the re-export then fails with. Each local name that was reached is declared, and
settled to the last value that was found for it; nothing else of the module changes. If the other module
does not look at the local names either, then all modules but that one are as they are after reads of the
names that were pulled. -/
theorem named_reexport_effect {world final : World σ} {m source : ModuleId}
    {pairs : List (String × String)} {outcome : Outcome} (made : m ∈ world) (made' : source ∈ world)
    (differs : source ≠ m)
    (ends : (Control.demand (.forward m source pairs)).Ends world outcome final) (calm : outcome.Calm)
    (alone : Inside (LeavesAlone m) ⟨.demand (.forward m source pairs), [], world⟩) :
    ∃ entries pulled, world.Reexports m source pairs entries pulled outcome final ∧
      Module.Redefined entries (world.module m) (final.module m) ∧
      (outcome = .unit → ∀ pair ∈ pairs, (final.module m).declares pair.1 = true) ∧
      (Inside (Overlooks m (pairs.map Prod.fst)) ⟨.demand (.forward m source pairs), [], world⟩ →
        ∃ answers later,
          Performs world (pulled.map fun name => (Code.resolve source name).program) answers later ∧
            ∀ n, n ≠ m → final.module n = later.module n) := by
  obtain ⟨entries, pulled, reexports, redefined, reads⟩ :=
    World.exists_reexports made made' differs ends calm alone
  have listed : ∀ pair ∈ pairs, pair.1 ∈ pairs.map Prod.fst := fun pair => List.mem_map_of_mem
  refine ⟨entries, pulled, reexports, redefined, fun succeeded pair member => ?_, fun inside => ?_⟩
  · cases reexports with
    | broken => cases succeeded
    | all takes =>
      rw [redefined.declares, takes.map_fst]
      exact .inl (listed pair member)
  · obtain ⟨answers, later, performs, near⟩ := reads _ listed inside world (.refl m _ world)
    exact ⟨answers, later, performs, fun n differs => near.module_eq differs⟩

/-- A module with a settled name, and another one whose body settles a name and then fails. -/
def stumbling : Program Unit :=
  Code.program do
    let m ← Code.create [.named "y"] .standard
    let _ ← Code.settle m "y" .null
    let source ← Code.create [.named "x", .named "late"] .standard
    Code.executeStatements source Code.unit
      [fun source => Code.settle source "x" (.boolean true), fun _ => Code.fail (.body "late")]

def stumbled : World Unit := ((Machine.start stumbling (.empty .standard ())).after 7).world

/-- The first module takes names of the second one, one of which never comes. -/
def stumblingPairs : List (String × String) := [("y", "x"), ("y", "other"), ("z", "late"), ("w", "x")]

def stumble : Machine Unit := ⟨.demand (.forward 0 1 stumblingPairs), [], stumbled⟩

/-- While the second module runs, no operation is on the first one. -/
theorem inside_stumble {holds : Machine Unit → Prop}
    (apart : ∀ machine : Machine Unit, 0 ∈ machine.world → ¬ machine.Concerns 0 → holds machine) :
    stumble.Inside holds := by
  intro reached reach waits
  have ended : (stumble.after 7).outcome? =
      some (.failed (.failed (stumbled.label 1) (.body "late"))) := rfl
  obtain ⟨i, bound, rfl⟩ := reach.exists_after ended
  have there : 0 ∈ stumbled := by
    show 0 < stumbled.modules.length
    decide
  have made := (stumble.reaches_after i).grows.mem there
  match i with
  | 0 | 3 | 4 | 5 | 7 => exact absurd rfl waits
  | 1 => exact apart _ made (by decide : ¬ 0 ∈ [1])
  | 2 | 6 => exact apart _ made (by decide : ¬ some 1 = some 0)
  | i + 8 => omega

theorem named_reexport_effect_of_stumble :
    ∃ (final : World Unit) (entries : List (String × Option Value)) (pulled : List String),
      stumbled.Reexports 0 1 stumblingPairs entries pulled
        (.failed (.failed (stumbled.label 1) (.body "late"))) final ∧
      (final.module 0).peek "y" = some (.boolean true) ∧ (final.module 0).declares "z" = false ∧
      Module.Redefined entries (stumbled.module 0) (final.module 0) ∧
      ∃ answers later,
        Performs stumbled (pulled.map fun name => (Code.resolve 1 name).program) answers later ∧
          ∀ n, n ≠ 0 → final.module n = later.module n := by
  have ended : (stumble.after 7).outcome? =
      some (.failed (.failed (stumbled.label 1) (.body "late"))) := rfl
  have ends := Control.ends_iff.mpr (Machine.run?_of_after ended)
  have alone : stumble.Inside (LeavesAlone 0) := inside_stumble fun _ => leavesAlone_of_not_concerns
  have made : 0 ∈ stumbled ∧ 1 ∈ stumbled := by
    show 0 < stumbled.modules.length ∧ 1 < stumbled.modules.length
    decide
  obtain ⟨entries, pulled, reexports, redefined, _, reads⟩ :=
    named_reexport_effect made.1 made.2 Nat.one_ne_zero ends (fun _ => nofun) alone
  have overlooks : stumble.Inside (Overlooks 0 (stumblingPairs.map Prod.fst)) :=
    inside_stumble fun _ made apart => overlooks_of_not_concerns made apart _
  exact ⟨_, entries, pulled, reexports, rfl, rfl, redefined, reads overlooks⟩

/-- A module without names, and another one whose body settles a name, and then another one to what the
first module has under a name. -/
def peering : Program Unit :=
  Code.program do
    let m ← Code.create [] .standard
    let source ← Code.create [.named "x", .named "seen"] .standard
    Code.executeStatements source Code.unit
      [fun source => Code.settle source "x" (.boolean true),
        fun source => do
          let other ← Code.observe m
          Code.settle source "seen" ((other.bindings.find? "a").getD .undefined)]

def peered : World Unit := ((Machine.start peering (.empty .standard ())).after 6).world

def peer : Machine Unit := ⟨.demand (.forward 0 1 [("a", "x"), ("b", "seen")]), [], peered⟩

def readName : Machine Unit := Machine.start (Code.resolve 1 "x").program peered

def readSeen : Machine Unit :=
  Machine.start (Code.resolve 1 "seen").program (readName.after 6).world

/-- A module that looks at the local names of a re-export need not be as it is after reads alone. -/
theorem reexport_seen_by_source : ¬ ∀ (world final later : World Unit) (m source : ModuleId)
    (pairs : List (String × String)) (answers : List Outcome), m ∈ world → source ∈ world →
      source ≠ m → (Control.demand (.forward m source pairs)).Ends world .unit final →
      Inside (LeavesAlone m) ⟨.demand (.forward m source pairs), [], world⟩ →
      Performs world (pairs.map fun pair => (Code.resolve source pair.2).program) answers later →
      final.module source = later.module source := by
  intro same
  have ended : (peer.after 10).outcome? = some .unit := rfl
  have alone : peer.Inside (LeavesAlone 0) := by
    intro reached reach waits
    obtain ⟨i, bound, rfl⟩ := reach.exists_after ended
    match i with
    | 0 | 3 | 4 | 8 | 9 | 10 => exact absurd rfl waits
    | 1 | 2 | 5 | 6 | 7 => rfl
    | i + 11 => omega
  have made : 0 ∈ peered ∧ 1 ∈ peered := by
    show 0 < peered.modules.length ∧ 1 < peered.modules.length
    decide
  have ended₁ : (readName.after 6).outcome? = some (.returned (.boolean true)) := rfl
  have ended₂ : (readSeen.after 7).outcome? = some .unit := rfl
  obtain ⟨_, read₁⟩ := Machine.run?_of_after ended₁
  obtain ⟨_, read₂⟩ := Machine.run?_of_after ended₂
  have ends := Control.ends_iff.mpr (Machine.run?_of_after ended)
  have alike : (peer.after 10).world.module 1 = (readSeen.after 7).world.module 1 :=
    same peered _ _ 0 1 _ _ made.1 made.2 Nat.one_ne_zero ends alone (.cons read₁ (.cons read₂ .nil))
  -- The body saw the first local name only where it had been taken already.
  have seen : ((peer.after 10).world.module 1).peek "seen" = some (.boolean true) := rfl
  have unseen : ((readSeen.after 7).world.module 1).peek "seen" = some .undefined := rfl
  rw [alike, unseen] at seen
  cases seen

end LiveBindings
