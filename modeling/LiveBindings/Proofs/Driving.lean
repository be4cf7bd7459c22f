import LiveBindings.Proofs.Reading
import LiveBindings.Proofs.Standing

namespace LiveBindings

open Machine

variable {σ : Type}

theorem Target.isContractViolation_of_remote {target : Target} {fault : Fault}
    (unknown : target.remote = .error fault) : fault.isContractViolation = false := by
  unfold remote at unknown
  split at unknown
  · cases unknown
  · split at unknown
    · cases unknown
    · cases unknown
      rfl

namespace Demand

theorem deliver_get_error {fault : Fault} (target : Target) (world : World σ)
    (harmless : fault.isContractViolation = false) :
    deliver .get target world (.error fault) =
      (.answer .unit, world.record target.source (target.failure fault)) := by
  simp [deliver, harmless]

/-- A lenient read that can be brought no further gives undefined. -/
theorem giveUp_get (target : Target) (world : World σ) :
    ∃ later : World σ, giveUp .get target world = (.answer .unit, later) ∧
      later.modules = world.modules := by
  unfold giveUp
  cases remote : target.remote with
  | error fault =>
    have harmless := target.isContractViolation_of_remote remote
    exact ⟨_, deliver_get_error target world harmless, World.modules_record ..⟩
  | ok name =>
    simp only [Except.bind, Module.unsettled]
    split
    · exact ⟨_, deliver_get_error target world rfl, World.modules_record ..⟩
    · exact ⟨world, rfl, rfl⟩

end Demand

namespace Machine

variable {world : World σ} {demand : Demand} {j : ModuleId}

theorem step_of_waiting {body : Body σ} (awaited : demand.awaited? world = some j)
    (free : (world.module j).held = false)
    (slot : (world.module j).slot = ⟨some body, .suspended, none⟩) (stack : List (Frame σ)) :
    step ⟨.demand demand, stack, world⟩ =
      ⟨.run (body.next j), .stepping j body.verdict demand :: stack,
        (world.update j (·.resumed body)).record j
          (.resuming j ((world.module j).steps + 1))⟩ := by
  simp [step, stepDemand, awaited, advance, free, slot, Slot.readiness]

theorem step_of_completed (awaited : demand.awaited? world = some j)
    (free : (world.module j).held = false)
    (slot : (world.module j).slot = ⟨none, .completed, none⟩) (stack : List (Frame σ)) :
    step ⟨.demand demand, stack, world⟩ = join stack (demand.react world .exhausted) := by
  simp [step, stepDemand, awaited, advance, free, slot, Slot.readiness]

end Machine

namespace Family

variable {family : Family} {bound : Nat} {world : World σ} {j : ModuleId} {draft : Draft}

/-- A demand that waits for a module of lower rank than a bound brings it to where the demand waits
no longer, or to the end of the module's body. -/
def Drives (σ : Type) (family : Family) (bound : Nat) : Prop :=
  ∀ j, family.Below bound j → ∀ demand : Demand,
    (∀ world : World σ, demand.awaited? world = none ∨ demand.awaited? world = some j) →
    ∀ (stack : List (Frame σ)) (world : World σ), family.Sound bound world →
      ∃ later, Reaches ⟨.demand demand, stack, world⟩ ⟨.demand demand, stack, later⟩ ∧
        family.Advances bound world later ∧
        (demand.awaited? later = none ∨
          demand.awaited? later = some j ∧ (later.module j).slot = ⟨none, .completed, none⟩)

/-- A lenient read gives the value of the family. -/
theorem Drives.read (drives : family.Drives σ bound) {target : Target}
    (below : family.Below bound target.source) (sound : family.Sound bound world)
    (stack : List (Frame σ)) :
    ∃ later, Reaches ⟨.demand (.read .get target), stack, world⟩
        ⟨.answer (.returned (family.read target)), stack, later⟩ ∧
      family.Advances bound world later := by
  have awaits (world : World σ) : (Demand.read .get target).awaited? world = none ∨
      (Demand.read .get target).awaited? world = some target.source := by
    simp only [Demand.awaited?]
    split
    · split
      · exact .inr rfl
      · exact .inl rfl
    · exact .inl rfl
  obtain ⟨later, reach, advances, rest⟩ := drives _ below _ awaits stack world sound
  obtain ⟨draft, drawn⟩ := Option.isSome_iff_exists.mp below.1
  obtain ⟨position, stands⟩ := advances.sound _ draft drawn below.2
  obtain ⟨given, gives, same⟩ := Demand.giveUp_get target later
  have ends (result : Control σ × World σ) (modules : result.2.modules = later.modules)
      (next : step ⟨.demand (.read .get target), stack, later⟩ = join stack result)
      (answers : result.1 = .answer (.returned (family.read target))) :
      ∃ last, Reaches ⟨.demand (.read .get target), stack, world⟩
          ⟨.answer (.returned (family.read target)), stack, last⟩ ∧
        family.Advances bound world last := by
    refine ⟨result.2, reach.then (next.trans ?_), advances.of_modules_eq modules⟩
    rw [join, answers]
  cases remote : target.remote with
  | error fault =>
    have read : family.read target = .undefined := by simp only [Family.read, remote]
    have unawaited : (Demand.read .get target).awaited? later = none := by
      simp only [Demand.awaited?, remote]
    have harmless := target.isContractViolation_of_remote remote
    refine ends (.answer .unit, later.record target.source (target.failure fault))
      (World.modules_record ..) ?_ ?_
    · rw [step_of_unawaited unawaited, Demand.proceed, remote]
      exact congrArg (join stack) (Demand.deliver_get_error target later harmless)
    · rw [read]
      rfl
  | ok name =>
    have read : family.read target = family.den target.source name := by
      simp only [Family.read, remote]
    rcases rest with unawaited | ⟨awaited, completed⟩
    · cases settled : (later.module target.source).peek name with
      | some value =>
        refine ends (.answer (.returned value), later) rfl ?_ ?_
        · rw [step_of_unawaited unawaited]
          simp only [Demand.proceed, remote, settled]
        · rw [read, stands.written.right name value settled]
      | none =>
        have undeclared : (later.module target.source).awaits name = false := by
          simpa [Demand.awaited?, remote, Module.lacks, settled] using unawaited
        refine ends (.answer .unit, given) same ?_ ?_
        · rw [step_of_unawaited unawaited, ← gives]
          simp only [Demand.proceed, remote, settled]
        · rw [read, stands.written.undefined_of_undeclared drawn undeclared]
          rfl
    · have missing : (later.module target.source).peek name = none := by
        simp only [Demand.awaited?, remote] at awaited
        split at awaited
        · next lacks => exact Module.peek_of_lacks lacks
        · cases awaited
      refine ends (.answer .unit, given) same ?_ ?_
      · rw [step_of_completed awaited stands.free completed, ← gives]
        rfl
      · rw [read, (stands.written_of_completed completed).undefined_of_ended drawn missing]
        rfl

/-- A re-export of one name takes the value of the family, or nothing for an undefined one. -/
theorem Drives.forward (drives : family.Drives σ bound) {source : ModuleId}
    (below : family.Below bound source) (sound : family.Sound bound world) (m : ModuleId)
    (localName remoteName : String) (stack : List (Frame σ)) :
    ∃ later value, Reaches ⟨.demand (.forward m source [(localName, remoteName)]), stack, world⟩
        ⟨.answer .unit, stack, later.forward m source localName remoteName value⟩ ∧
      family.Advances bound world later ∧
      (∀ settled, value = some settled → settled = family.den source remoteName) ∧
      (value = none → family.den source remoteName = .undefined) := by
  have awaits (world : World σ) :
      (Demand.forward m source [(localName, remoteName)]).awaited? world = none ∨
        (Demand.forward m source [(localName, remoteName)]).awaited? world = some source := by
    simp only [Demand.awaited?]
    split
    · exact .inr rfl
    · exact .inl rfl
  obtain ⟨later, reach, advances, rest⟩ := drives _ below _ awaits stack world sound
  obtain ⟨draft, drawn⟩ := Option.isSome_iff_exists.mp below.1
  obtain ⟨position, stands⟩ := advances.sound _ draft drawn below.2
  rcases rest with unawaited | ⟨awaited, completed⟩
  · refine ⟨later, (later.module source).peek remoteName, ?_, advances, ?_, ?_⟩
    · exact (reach.then (step_of_unawaited unawaited stack)).then rfl
    · exact stands.written.right remoteName
    · intro missing
      have undeclared : (later.module source).awaits remoteName = false := by
        simpa [Demand.awaited?, Module.lacks, missing] using unawaited
      exact stands.written.undefined_of_undeclared drawn undeclared
  · have missing : (later.module source).peek remoteName = none := by
      simp only [Demand.awaited?] at awaited
      split at awaited
      · next lacks => exact Module.peek_of_lacks lacks
      · cases awaited
    refine ⟨later, none, ?_, advances, fun settled given => ?_, fun _ => ?_⟩
    · exact (reach.then (step_of_completed awaited stands.free completed stack)).then rfl
    · cases given
    · exact (stands.written_of_completed completed).undefined_of_ended drawn missing

theorem Drives.finish (drives : family.Drives σ bound) (below : family.Below bound j)
    (sound : family.Sound bound world) (stack : List (Frame σ)) :
    ∃ later, Reaches ⟨.demand (.finish j), stack, world⟩ ⟨.answer .unit, stack, later⟩ ∧
      family.Advances bound world later := by
  obtain ⟨later, reach, advances, rest⟩ :=
    drives j below (.finish j) (fun _ => .inr rfl) stack world sound
  obtain ⟨draft, drawn⟩ := Option.isSome_iff_exists.mp below.1
  obtain ⟨position, stands⟩ := advances.sound j draft drawn below.2
  rcases rest with unawaited | ⟨awaited, completed⟩
  · cases unawaited
  · exact ⟨later, reach.then (step_of_completed awaited stands.free completed stack), advances⟩

/-- A module has run one statement more, for which modules of lower rank may have gone on. -/
structure Exports (family : Family) (j : ModuleId) (draft : Draft) (position : Nat)
    (before after : World σ) : Prop where
  sound : family.Sound (family.rank j) after
  apart : ∀ m, m ≠ j → ¬ family.Below (family.rank j) m → after.module m = before.module m
  life : (after.module j).life = (before.module j).life
  written : family.Written j draft (position + 1) (after.module j)

theorem not_below_rank : ¬ family.Below (family.rank j) j := fun below => Nat.lt_irrefl _ below.2

theorem Exports.of_update {position : Nat} {before middle : World σ} {event : Event}
    {change : Module σ → Module σ} (advances : family.Advances (family.rank j) before middle)
    (made : j ∈ middle) (life : ∀ module, (change module).life = module.life)
    (written : family.Written j draft (position + 1) (change (middle.module j))) :
    family.Exports j draft position before ((middle.record j event).update j change) := by
  have there : ((middle.record j event).update j change).module j = change (middle.module j) := by
    rw [World.module_update_self change (by rwa [World.mem_iff, World.modules_record]),
      World.module_record]
  have beside (m : ModuleId) (differs : m ≠ j) :
      ((middle.record j event).update j change).module m = middle.module m := by
    rw [World.module_update_of_ne _ differs, World.module_record]
  refine ⟨?_, ?_, ?_, ?_⟩
  · intro i draft drawn lower
    rw [beside i fun same => Nat.lt_irrefl _ (same ▸ lower)]
    exact advances.sound i draft drawn lower
  · intro m differs above
    rw [beside m differs, advances.apart m above]
  · rw [there, life, advances.apart j not_below_rank]
  · rw [there]
    exact written

end Family

theorem World.mem_of_slot {world : World σ} {m : ModuleId} (given : (world.module m).slot ≠ .empty) :
    m ∈ world := by
  refine Classical.byContradiction fun missing => given ?_
  rw [module_of_not_mem missing]
  rfl

namespace Machine

theorem step_act (action : Action) (next : action.Reply → Program σ) (stack : List (Frame σ))
    (world : World σ) : step ⟨.run (.act action next), stack, world⟩ =
      ⟨.run (next (action.perform world).1), stack, (action.perform world).2⟩ := rfl

theorem reaches_settle {world : World σ} {m : ModuleId} {name : String}
    (declared : name ∈ (world.module m).declared) (value : Value) (stack : List (Frame σ)) :
    Reaches ⟨.run (Code.settle m name value).program, stack, world⟩
      ⟨.answer .unit, stack,
        (world.record m (.settled m name value)).update m (·.bind name value)⟩ := by
  have settled : Action.perform world (.settle m name value) =
      (.ok (), (world.record m (.settled m name value)).update m (·.bind name value)) :=
    if_pos declared
  refine .of_step ((step_act ..).trans ?_)
  rw [settled]
  rfl

end Machine

namespace Family

variable {family : Family} {bound : Nat} {world : World σ} {j : ModuleId} {draft : Draft}
  {position : Nat} {clause : Clause}

theorem reaches_export {middle : World σ} (advances : family.Advances (family.rank j) world middle)
    (made : j ∈ middle) (written : family.Written j draft position (middle.module j))
    (entry : draft.clauses[position]? = some clause) (stack : List (Frame σ)) :
    ∃ later, Reaches
        ⟨.run (Code.settle j clause.name (family.den j clause.name)).program, stack, middle⟩
        ⟨.answer .unit, stack, later⟩ ∧ family.Exports j draft position world later := by
  have declared := written.declares clause (List.mem_of_getElem? entry)
  refine ⟨_, reaches_settle declared _ stack, ?_⟩
  exact .of_update advances made (fun _ => rfl) (written.bind entry)

/-- A statement exports the value of the family, if reads of modules of lower rank give theirs. -/
theorem Drives.reaches_clause (drives : family.Drives σ (family.rank j))
    (drawn : family.draft j = some draft) (entry : draft.clauses[position]? = some clause)
    (sound : family.Sound (family.rank j) world) (given : (world.module j).slot ≠ .empty)
    (written : family.Written j draft position (world.module j)) (stack : List (Frame σ)) :
    ∃ later, Reaches ⟨.run (clause.code j).program, stack, world⟩ ⟨.answer .unit, stack, later⟩ ∧
      family.Exports j draft position world later := by
  have member := List.mem_of_getElem? entry
  have den := den_of_mem drawn member
  have kept {middle : World σ} (advances : family.Advances (family.rank j) world middle) :
      j ∈ middle ∧ family.Written j draft position (middle.module j) := by
    have same := advances.apart j not_below_rank
    rw [same]
    exact ⟨World.mem_of_slot (by rwa [same]), written⟩
  unfold Clause.code
  -- The value is at hand at once, or after a demand that only modules of lower rank take part in.
  cases origin : clause.origin with
  | constant value =>
    rw [origin] at den
    obtain ⟨made, written⟩ := kept (.refl sound)
    have exports := reaches_export (.refl sound) made written entry stack
    rwa [den] at exports
  | read target =>
    rw [origin] at den
    have below := family.earlier j draft drawn clause member target.source (by rw [origin]; rfl)
    obtain ⟨next, start, returned⟩ : ∃ next, step ⟨.run (Code.program (do
        Code.settle j clause.name (← Code.read .get target))), stack, world⟩ =
          ⟨.demand (.read .get target), .caller next :: stack, world⟩ ∧
        ∀ value, next (.returned value) = (Code.settle j clause.name value).program :=
      ⟨_, rfl, fun _ => rfl⟩
    obtain ⟨middle, reach, advances⟩ := drives.read below sound (.caller next :: stack)
    obtain ⟨made, written⟩ := kept advances
    obtain ⟨later, settles, exports⟩ := reaches_export advances made written entry stack
    have answered : step ⟨.answer (.returned (family.read target)), .caller next :: stack, middle⟩ =
        ⟨.run (Code.settle j clause.name (family.den j clause.name)).program, stack, middle⟩ := by
      change Machine.mk (.run (next (.returned (family.read target)))) stack middle = _
      rw [returned, den]
      rfl
    exact ⟨later, .step (start ▸ (reach.then answered).trans settles), exports⟩
  | forward source name =>
    rw [origin] at den
    have below := family.earlier j draft drawn clause member source (by rw [origin]; rfl)
    obtain ⟨middle, value, reach, advances, right, missing⟩ :=
      drives.forward below sound j clause.name name (.caller .done :: stack)
    obtain ⟨made, written⟩ := kept advances
    have defined := written.define entry (fun settled same => (right settled same).trans den.symm)
      fun none => den.trans (missing none)
    refine ⟨_, .step (reach.then rfl), .of_update advances made (fun module => ?_) defined⟩
    have same := congrArg Module.life (Module.core_define module clause.name value)
    exact same

theorem next_body {i : Nat} (entry : draft.clauses[i]? = some clause) :
    ((draft.body : Body σ).after i).next j = (clause.code j).program := by
  have stated : (draft.clauses.map fun clause m => ((clause.code m).program : Program σ))[i]? =
      some fun m => (clause.code m).program := by
    rw [List.getElem?_map, entry]
    rfl
  exact Body.next_ofStatements stated

theorem next_body_length :
    ((draft.body : Body σ).after draft.clauses.length).next j = .done .unit := by
  have last : ((draft.body : Body σ).after (draft.clauses.map _).length).next j = .done .unit :=
    Body.next_ofStatements_length
  rwa [List.length_map] at last

theorem verdict_body (i : Nat) (value : Value) : ((draft.body : Body σ).after i).verdict value =
    if i < draft.clauses.length then .yield else .complete := by
  rw [Draft.body, Body.verdict_ofStatements, List.length_map]

theorem exists_resumed {body : Body σ} {demand : Demand} (awaited : demand.awaited? world = some j)
    (free : (world.module j).held = false)
    (slot : (world.module j).slot = ⟨some body, .suspended, none⟩)
    (written : family.Written j draft position (world.module j)) (stack : List (Frame σ)) :
    ∃ resumed, step ⟨.demand demand, stack, world⟩ =
        ⟨.run (body.next j), .stepping j body.verdict demand :: stack, resumed⟩ ∧
      (∀ m, m ≠ j → resumed.module m = world.module m) ∧
      (resumed.module j).slot = ⟨some body.advanced, .suspended, none⟩ ∧
      family.Written j draft position (resumed.module j) := by
  have made := World.mem_of_free free
  refine ⟨_, step_of_waiting awaited free slot stack, fun m differs => ?_, ?_⟩
  · rw [World.module_record, World.module_update_of_ne _ differs]
  · rw [World.module_record, World.module_update_self _ made]
    exact ⟨by rw [Module.resumed, slot], written.of_surface rfl (.inl rfl) rfl rfl⟩

/-- A resumption that can be followed by another one lets the demand go on. -/
theorem exists_yielded {verdict : Value → Step} {demand : Demand} {body : Body σ}
    (report : verdict .undefined = .yield)
    (slot : (world.module j).slot = ⟨some body, .suspended, none⟩)
    (written : family.Written j draft position (world.module j)) (stack : List (Frame σ)) :
    ∃ later, step ⟨.answer .unit, .stepping j verdict demand :: stack, world⟩ =
        ⟨.demand demand, stack, later⟩ ∧
      (∀ m, m ≠ j → later.module m = world.module m) ∧
      (later.module j).held = false ∧
      (later.module j).slot = ⟨some body, .suspended, none⟩ ∧
      family.Written j draft position (later.module j) := by
  have made : j ∈ world := World.mem_of_slot (by rw [slot]; exact nofun)
  refine ⟨world.update j Module.yield, ?_, fun m differs => ?_, ?_⟩
  · simp only [step, Control.answer, stepProgram, Outcome.unit, resumeFrame, report, Demand.react,
      join]
  · rw [World.module_update_of_ne _ differs]
  · rw [World.module_update_self _ made]
    exact ⟨rfl, by rw [Module.yield, slot], written.of_surface rfl (.inl rfl) rfl rfl⟩

/-- The resumption after the last statement ends the body, and the module loads without a hook. -/
theorem exists_ended {verdict : Value → Step} {demand : Demand} {body : Body σ}
    (report : verdict .undefined = .complete)
    (slot : (world.module j).slot = ⟨some body, .suspended, none⟩)
    (written : family.Written j draft draft.clauses.length (world.module j))
    (stack : List (Frame σ)) :
    ∃ later, step ⟨.answer .unit, .stepping j verdict demand :: stack, world⟩ =
        ⟨.demand demand, stack, later⟩ ∧
      (∀ m, m ≠ j → later.module m = world.module m) ∧
      (later.module j).held = false ∧ (later.module j).slot = ⟨none, .completed, none⟩ ∧
      family.Written j draft draft.clauses.length (later.module j) := by
  have made : j ∈ world := World.mem_of_slot (by rw [slot]; exact nofun)
  have start : step ⟨.answer .unit, .stepping j verdict demand :: stack, world⟩ =
      load j (.goOn demand) stack
        ((world.update j Module.complete).record j (.completed j (world.module j).steps)) := by
    simp only [step, Control.answer, stepProgram, Outcome.unit, resumeFrame, report]
  rw [start]
  generalize after : (world.update j Module.complete).record j _ = completed
  have there : completed.module j = (world.module j).complete := by
    rw [← after, World.module_record, World.module_update_self _ made]
  have beside (m : ModuleId) (differs : m ≠ j) : completed.module m = world.module m := by
    rw [← after, World.module_record, World.module_update_of_ne _ differs]
  have none : (completed.module j).slot = ⟨none, .completed, none⟩ := by
    rw [there, Module.complete, slot]
  have still : family.Written j draft draft.clauses.length (completed.module j) := by
    rw [there]
    exact written.of_surface rfl (.inl rfl) rfl rfl
  have free : (completed.module j).held = false := by rw [there]; rfl
  -- A module whose hooks do not wait has loaded already, or it loads now.
  rcases still.unhooked with loaded | waiting
  · refine ⟨completed, ?_, beside, free, none, still⟩
    simp only [load, loaded, runHooks, Demand.react, join]
  · refine ⟨(completed.update j Module.load).record j (.hooksRun j 0), ?_, fun m differs => ?_, ?_⟩
    · simp only [load, waiting, runHooks, Demand.react, join, List.length_nil]
    · rw [World.module_record, World.module_update_of_ne _ differs, beside m differs]
    · rw [World.module_record, World.module_update_self _ (World.mem_of_free free)]
      exact ⟨free, none, still.of_surface rfl (.inr rfl) rfl rfl⟩

/-- The modules of lower rank than a bound advance when one of them does, and those of still lower
rank with it. -/
theorem Advances.of_stands {later : World σ} {next : Nat} (sound : family.Sound bound world)
    (drawn : family.draft j = some draft) (lower : family.rank j < bound)
    (deeper : family.Sound (family.rank j) later)
    (apart : ∀ m, m ≠ j → ¬ family.Below (family.rank j) m → later.module m = world.module m)
    (stands : family.Stands j draft (later.module j) next) : family.Advances bound world later := by
  constructor
  · intro i other written less
    by_cases same : i = j
    · subst i
      cases drawn.symm.trans written
      exact ⟨next, stands⟩
    · by_cases deep : family.rank i < family.rank j
      · exact deeper i other written deep
      · rw [apart i same fun below => deep below.2]
        exact sound i other written less
  · intro m above
    refine apart m (fun same => ?_) fun below => above ⟨below.1, Nat.lt_trans below.2 lower⟩
    exact above (same ▸ ⟨by rw [drawn]; rfl, lower⟩)

theorem Sound.of_apart {before after : World σ} {rank : Nat} (sound : family.Sound rank before)
    (top : family.rank j = rank) (same : ∀ m, m ≠ j → after.module m = before.module m) :
    family.Sound rank after := by
  intro i draft drawn lower
  rw [same i fun equal => Nat.lt_irrefl _ (top ▸ equal ▸ lower)]
  exact sound i draft drawn lower

/-- A module that a demand waits for goes on by one statement, or to its end. -/
theorem Drives.resume (drives : family.Drives σ (family.rank j))
    (drawn : family.draft j = some draft) (lower : family.rank j < bound) (sound : family.Sound bound world)
    (room : position ≤ draft.clauses.length) (free : (world.module j).held = false)
    (slot : (world.module j).slot = ⟨some (draft.body.after position), .suspended, none⟩)
    (written : family.Written j draft position (world.module j)) {demand : Demand}
    (awaited : demand.awaited? world = some j) (stack : List (Frame σ)) :
    ∃ later, Reaches ⟨.demand demand, stack, world⟩ ⟨.demand demand, stack, later⟩ ∧
      family.Advances bound world later ∧
      ((later.module j).slot = ⟨none, .completed, none⟩ ∨
        position < draft.clauses.length ∧ family.Stands j draft (later.module j) (position + 1)) := by
  obtain ⟨resumed, start, beside, slot, written⟩ :=
    exists_resumed awaited free slot written stack
  have deeper : family.Sound (family.rank j) world := fun i other drawn less =>
    sound i other drawn (Nat.lt_trans less lower)
  have inner := deeper.of_apart rfl beside
  have report : ((draft.body : Body σ).after position).verdict .undefined = _ :=
    verdict_body position .undefined
  rcases Nat.lt_or_eq_of_le room with before | atEnd
  · have entry := List.getElem?_eq_getElem before
    rw [next_body entry] at start
    rw [if_pos before] at report
    obtain ⟨middle, reach, exports⟩ := drives.reaches_clause drawn entry inner
      (by rw [slot]; exact nofun) written
      (.stepping j ((draft.body : Body σ).after position).verdict demand :: stack)
    have slot := (Module.slot_of_life exports.life).trans slot
    obtain ⟨later, next, apart, free, slot, written⟩ :=
      exists_yielded report slot exports.written stack
    have stands : family.Stands j draft (later.module j) (position + 1) :=
      .waiting before free slot written
    refine ⟨later, .step (start ▸ reach.then next), ?_, .inr ⟨before, stands⟩⟩
    refine .of_stands sound drawn lower (exports.sound.of_apart rfl apart)
      (fun m differs above => ?_) stands
    rw [apart m differs, exports.apart m differs above, beside m differs]
  · subst position
    rw [next_body_length] at start
    rw [if_neg (Nat.lt_irrefl _)] at report
    obtain ⟨later, next, apart, free, completed, written⟩ :=
      exists_ended report slot written stack
    have stands : family.Stands j draft (later.module j) draft.clauses.length :=
      .ended free completed written
    refine ⟨later, .step (start ▸ .of_step next), ?_, .inl completed⟩
    refine .of_stands sound drawn lower (inner.of_apart rfl apart) (fun m differs _ => ?_) stands
    rw [apart m differs, beside m differs]

/-- A demand for a module of the family resumes statements that make demands for modules of lower
rank only, so it never meets a body that is mid-step. -/
theorem drives (family : Family) (bound : Nat) : family.Drives σ bound := by
  induction bound using Nat.strongRecOn with
  | ind bound lower =>
    intro j below demand awaits stack world sound
    obtain ⟨draft, drawn⟩ := Option.isSome_iff_exists.mp below.1
    obtain ⟨position, stands⟩ := sound j draft drawn below.2
    have inner := lower (family.rank j) below.2
    -- Within one rank the statements that the body has left decrease.
    induction left : draft.clauses.length - position using Nat.strongRecOn
      generalizing world position with
    | ind left shorter =>
      rcases awaits world with unawaited | awaited
      · exact ⟨world, .refl _, .refl sound, .inl unawaited⟩
      · cases stands with
        | ended _ completed => exact ⟨world, .refl _, .refl sound, .inr ⟨awaited, completed⟩⟩
        | waiting room free slot written =>
          obtain ⟨middle, reach, advances, completed | ⟨before, stands⟩⟩ :=
            inner.resume drawn below.2 sound room free slot written awaited stack
          · refine ⟨middle, reach, advances, ?_⟩
            rcases awaits middle with unawaited | awaited
            · exact .inl unawaited
            · exact .inr ⟨awaited, completed⟩
          · obtain ⟨later, rest, further, ends⟩ :=
              shorter _ (by omega) middle advances.sound (position + 1) stands rfl
            exact ⟨later, reach.trans rest, advances.trans further, ends⟩

theorem Advances.sound_all {later : World σ} (advances : family.Advances bound world later)
    (sound : ∀ rank, family.Sound rank world) (rank : Nat) : family.Sound rank later := by
  intro i draft drawn lower
  by_cases below : family.Below bound i
  · exact advances.sound i draft drawn below.2
  · rw [advances.apart i below]
    exact sound rank i draft drawn lower

end Family

end LiveBindings
