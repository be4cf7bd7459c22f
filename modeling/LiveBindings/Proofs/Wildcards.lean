import LiveBindings.Proofs.Apart
import LiveBindings.Proofs.Attachment
import LiveBindings.Proofs.Clauses
import Mathlib.Algebra.GroupWithZero.Nat

namespace LiveBindings

open Machine

variable {σ : Type} {allowed : Program σ → Prop}

/-- The life of a module whose body waits to be resumed, so many resumptions after it was given. -/
def Life.waiting (body : Body σ) (count : Nat) : Life σ :=
  ⟨⟨some (body.after count), .suspended, none⟩, false, count⟩

/-- The life of a module while the next resumption of its body is under way. -/
def Life.inside (body : Body σ) (count : Nat) : Life σ :=
  ⟨⟨some (body.after (count + 1)), .suspended, none⟩, true, count + 1⟩

namespace Module

variable {module : Module σ} {body : Body σ} {count : Nat}

theorem life_resumed (life : module.life = .waiting body count) :
    (module.resumed (body.after count)).life = .inside body count := by
  simp only [Module.life, Life.waiting, Life.mk.injEq] at life
  obtain ⟨slot, free, steps⟩ := life
  simp [Module.life, Module.resumed, Module.hold, Life.inside, slot, steps, Body.advanced_after]

theorem life_yield (life : module.life = .inside body count) :
    module.yield.life = .waiting body (count + 1) := by
  simp only [Module.life, Life.inside, Life.mk.injEq] at life
  obtain ⟨slot, held, steps⟩ := life
  simp [Module.life, Module.yield, Module.release, Life.waiting, slot, steps]

end Module

namespace Demand

variable {world : World σ} {m : ModuleId}

theorem awaited?_wildcards_of_pos (missing : 0 < (world.module m).pendingWildcards) :
    (Demand.wildcards m).awaited? world = some m :=
  if_pos missing

theorem awaited?_wildcards_of_zero (filled : (world.module m).pendingWildcards = 0) :
    (Demand.wildcards m).awaited? world = none :=
  if_neg (Nat.not_lt.mpr (Nat.le_of_eq filled))

/-- An execution waits for the module that it gives a body, or for none. -/
theorem awaited?_wildcards (m : ModuleId) (world : World σ) :
    (Demand.wildcards m).awaited? world = none ∨ (Demand.wildcards m).awaited? world = some m := by
  rcases Nat.eq_zero_or_pos (world.module m).pendingWildcards with filled | missing
  · exact .inl (awaited?_wildcards_of_zero filled)
  · exact .inr (awaited?_wildcards_of_pos missing)

end Demand

namespace World

variable {world built start middle later ran : World σ} {m : ModuleId} {body : Body σ}
  {factory : Program σ} {statements : List (ModuleId → Program σ)} {counts : List Nat}
  {stack : List (Frame σ)}

/-- The world in which a module is given its body, as the factory has left it. -/
def given (built : World σ) (m : ModuleId) (body : Body σ) : World σ :=
  (built.update m (·.attach body)).record m (.executing m (built.module m).wildcards)

/-- A factory comes to its end, and the body is attached. -/
inductive Attaches (world : World σ) (m : ModuleId) (factory : Program σ) (body : Body σ) :
    World σ → Prop
  | intro {made built} : (Control.run factory).Ends (world.update m Module.hold) made built →
      made.Calm → Attaches world m factory body (built.given m body)

/-- The first statements of a module's body run one after another, each to an end without a fault. They
make so many merges into the module. -/
inductive Contributes (world : World σ) (m : ModuleId) (statements : List (ModuleId → Program σ)) :
    List Nat → World σ → Prop
  | start : Contributes world m statements [] world
  | next {counts middle count statement value ran} :
      Contributes world m statements counts middle →
      statements[counts.length]? = some statement →
      (Control.run (statement m)).Ends
        (middle.begun m ((Body.ofStatements statements).after counts.length)) (.returned value) ran →
      (ran.module m).merges = (middle.module m).merges + count →
      Contributes world m statements (counts ++ [count]) (ran.update m Module.yield)

theorem Attaches.orderly (attaches : world.Attaches m factory body start)
    (orderly : Orderly world (holding stack)) (pending : (world.module m).state = .pending) :
    Orderly start (holding stack) := by
  obtain @⟨made, built, ends, calm⟩ := attaches
  have enabled : (Turn.making m : Turn σ).Enabled world := Module.state_eq_pending.mp pending
  have making := orderly.turn enabled (.making : Turn.Moves _ _ (.building m body :: holding stack))
  have ended := (ends (.building m body :: stack)).orderly making
  have attached : Orderly (built.update m (·.attach body)) (holding stack) :=
    Orderly.turn ended (show (Turn.attached m body).Enabled built from trivial) .attached
  exact attached.keeps (keeps_record ..)

theorem Attaches.life (attaches : world.Attaches m factory body start)
    (orderly : Orderly world (holding stack)) (pending : (world.module m).state = .pending) :
    (start.module m).life = .waiting body 0 := by
  obtain @⟨made, built, ends, calm⟩ := attaches
  obtain ⟨free, state⟩ := Module.state_eq_pending.mp pending
  have there := mem_of_free free
  obtain ⟨slot, steps⟩ := (orderly.shaped m there).of_pending state
  have hold := module_update_self Module.hold there
  have still : m ∈ world.update m Module.hold := by rwa [mem_iff, length_update]
  have kept := ends.life_of_held still (by rw [hold]; rfl)
  rw [hold] at kept
  have there' : m ∈ built := (ends []).grows.mem still
  rw [given, module_record, module_update_self _ there']
  simp only [Module.life, Module.hold, Life.mk.injEq] at kept
  simp [Module.life, Module.attach, Module.release, Life.waiting, Body.after, kept, slot, steps,
    Slot.empty]

theorem Contributes.goes {statement : ModuleId → Program σ} {value : Value}
    (life : (middle.module m).life = .waiting (.ofStatements statements) counts.length)
    (entry : statements[counts.length]? = some statement)
    (ends : (Control.run (statement m)).Ends
      (middle.begun m ((Body.ofStatements statements).after counts.length)) (.returned value) ran) :
    middle.Goes m .stepped (ran.update m Module.yield) :=
  goes_statement entry (congrArg Life.held life) (congrArg Life.slot life) ends

/-- Where a module has come to by the first of its statements. -/
structure Contributed (start : World σ) (m : ModuleId) (statements : List (ModuleId → Program σ))
    (counts : List Nat) (later : World σ) : Prop where
  life : (later.module m).life = .waiting (.ofStatements statements) counts.length
  merges : (later.module m).merges = (start.module m).merges + counts.sum
  grows : start.Grows later

/-- The code of a resumption leaves it under way. -/
theorem life_of_ends {outcome : Outcome} {count : Nat}
    (life : (world.module m).life = .waiting body count)
    (ends : (Control.run ((body.after count).next m)).Ends (world.begun m (body.after count)) outcome
      ran) : m ∈ ran ∧ (ran.module m).life = .inside body count := by
  have begun := (Puts.refl (mem_of_free (congrArg Life.held life))).begun (body.after count)
  have kept := ends.life_of_held begun.made (by rw [begun.there]; rfl)
  rw [begun.there, Module.life_resumed life] at kept
  exact ⟨(ends []).grows.mem begun.made, kept⟩

theorem Contributes.contributed (contributes : start.Contributes m statements counts later)
    (life : (start.module m).life = .waiting (.ofStatements statements) 0) :
    start.Contributed m statements counts later := by
  induction contributes with
  | start => exact ⟨life, rfl, .refl start⟩
  | @next counts middle count statement value ran _ entry ends adds ih =>
    have goes := Contributes.goes ih.life entry ends
    rw [← Body.next_ofStatements (m := m) entry] at ends
    obtain ⟨there, inside⟩ := life_of_ends ih.life ends
    have yields := module_update_self Module.yield there
    refine ⟨?_, ?_, ih.grows.trans goes.grows⟩
    · rw [yields, Module.life_yield inside, List.length_append, List.length_singleton]
    · rw [yields, List.sum_append, List.sum_singleton, ← Nat.add_assoc, ← ih.merges, ← adds]
      rfl

/-- Merges are still missing when so many more were made. -/
def Short (start : World σ) (m : ModuleId) (counts : List Nat) : Prop :=
  (start.module m).merges + counts.sum < (start.module m).wildcards

instance : Decidable (start.Short m counts) := inferInstanceAs (Decidable (_ < _))

theorem Short.take (short : start.Short m counts) (i : Nat) : start.Short m (counts.take i) := by
  have parts : counts.sum = (counts.take i).sum + (counts.drop i).sum := by
    rw [← List.sum_append, List.take_append_drop]
  unfold Short at short ⊢
  omega

theorem Contributed.pendingWildcards (contributed : start.Contributed m statements counts later)
    (made : m ∈ start) : (later.module m).pendingWildcards =
      (start.module m).wildcards - ((start.module m).merges + counts.sum) := by
  rw [Module.pendingWildcards, contributed.merges, (contributed.grows.module m made).wildcards]

theorem Contributed.awaited? (contributed : start.Contributed m statements counts later)
    (made : m ∈ start) (short : start.Short m counts) :
    (Demand.wildcards m).awaited? later = some m := by
  refine Demand.awaited?_wildcards_of_pos ?_
  rw [contributed.pendingWildcards made]
  exact Nat.sub_pos_of_lt short

/-- The statements that come before enough merges were made are steps of the execution. -/
theorem Contributes.steps (contributes : start.Contributes m statements counts later)
    (life : (start.module m).life = .waiting (.ofStatements statements) 0)
    (short : ∀ i < counts.length, start.Short m (counts.take i)) :
    (Demand.wildcards m).Steps m start later := by
  have made := mem_of_free (congrArg Life.held life)
  induction contributes with
  | start => exact .refl start
  | @next counts middle count statement value ran before entry ends adds ih =>
    rw [List.length_append, List.length_singleton] at short
    have contributed := before.contributed life
    have awaited := contributed.awaited? made (by simpa using short counts.length (Nat.lt_succ_self _))
    refine (ih fun i early => ?_).concat awaited (Contributes.goes contributed.life entry ends)
    have less := short i (Nat.lt_succ_of_lt early)
    rwa [List.take_append_of_le_length (Nat.le_of_lt early)] at less

variable {code : Nat → ModuleId → Program σ} {ending : Ending} {outcome : Outcome}

/-- No statement is run after one that makes the last missing merge. -/
theorem Contributes.enough (contributes : start.Contributes m statements counts later)
    (life : (start.module m).life = .waiting (.ofStatements statements) 0)
    (short : ∀ i < counts.length, start.Short m (counts.take i)) (enough : ¬ start.Short m counts) :
    (Control.demand (.wildcards m)).Ends start .unit later ∧
      (later.module m).pendingWildcards = 0 := by
  have contributed := contributes.contributed life
  have filled : (later.module m).pendingWildcards = 0 := by
    rw [contributed.pendingWildcards (mem_of_free (congrArg Life.held life))]
    exact Nat.sub_eq_zero_of_le (Nat.not_lt.mp enough)
  have unawaited := Demand.awaited?_wildcards_of_zero filled
  refine ⟨(contributes.steps life short).ends (.unawaited unawaited) ?_, filled⟩
  exact Control.ends_answer.mpr ⟨rfl, rfl⟩

/-- A statement that fails while merges are missing ends the body and the execution. -/
theorem Contributes.failed {statement : ModuleId → Program σ} {cause : Fault}
    (contributes : start.Contributes m statements counts later)
    (life : (start.module m).life = .waiting (.ofStatements statements) 0)
    (short : start.Short m counts) (entry : statements[counts.length]? = some statement)
    (ends : (Control.run (statement m)).Ends
      (later.begun m ((Body.ofStatements statements).after counts.length)) (.failed cause) ran) :
    (Control.demand (.wildcards m)).Ends start (.failed (.failed (start.label m) cause))
        ((ran.update m (·.fail cause)).record m (.bodyFailed m cause)) ∧
      (((ran.update m (·.fail cause)).record m (.bodyFailed m cause)).module m).life =
        ⟨⟨none, .failed, some cause⟩, false, counts.length + 1⟩ := by
  have made := mem_of_free (congrArg Life.held life)
  have contributed := contributes.contributed life
  have steps := contributes.steps life fun i _ => short.take i
  rw [← Body.next_ofStatements (m := m) entry] at ends
  obtain ⟨there, inside⟩ := life_of_ends contributed.life ends
  have slot : (later.module m).slot = _ := congrArg Life.slot contributed.life
  have resumes : later.Resumes m ((Body.ofStatements statements).after counts.length)
      (.failed cause) ran :=
    ⟨⟨congrArg Life.held contributed.life, by rw [slot]; rfl⟩, ends⟩
  have label : ran.label m = start.label m :=
    (contributed.grows.trans resumes.grows).label made
  have goes := Goes.failed resumes
  rw [label] at goes
  refine ⟨?_, ?_⟩
  · have asked := Demand.reaches_of_goes (contributed.awaited? made short) goes
    exact fun stack => (steps.reaches stack).trans (asked stack)
  · rw [module_record, module_update_self _ there]
    exact congrArg (fun life : Life σ => Life.mk ⟨none, .failed, some cause⟩ false life.steps) inside

/-- Where an execution succeeds, no merge is missing, or the body has ended. -/
theorem Attaches.filled {value : Value} (attaches : world.Attaches m factory body start)
    (orderly : Orderly world (holding stack)) (pending : (world.module m).state = .pending)
    (ends : (Control.demand (.wildcards m)).Ends start (.returned value) later) :
    (later.module m).pendingWildcards = 0 ∨ (later.module m).state = .completed := by
  obtain ⟨middle, result, steps, halts, answers⟩ :=
    Demand.exists_halts (Demand.awaited?_wildcards m) ends (.returned value)
  have life := attaches.life orderly pending
  have ordered := attaches.orderly orderly pending
  have freed := steps.free ordered (congrArg Life.held life)
  cases halts.stops (steps.orderly ordered) freed with
  | unawaited none =>
    obtain ⟨_, rfl⟩ := Control.ends_answer.mp answers
    refine .inl (Nat.eq_zero_of_not_pos fun missing => ?_)
    cases none.symm.trans (Demand.awaited?_wildcards_of_pos missing)
  | idle _ _ slot =>
    have begun : (start.module m).slot.state = .suspended := congrArg (Slot.state ∘ Life.slot) life
    have empty : (middle.module m).slot.state = .pending := congrArg Slot.state slot
    rcases steps.states ordered with rfl | ⟨_, suspended | completed⟩
    · cases begun.symm.trans empty
    · cases suspended.symm.trans empty
    · cases completed.symm.trans empty
  | exhausted _ _ slot =>
    obtain ⟨_, rfl⟩ := Control.ends_answer.mp answers
    exact .inr ((Module.state_of_free freed).trans (congrArg Slot.state slot))
  | failed =>
    obtain ⟨impossible, _⟩ := Control.ends_answer.mp answers
    cases impossible

/-- Where no hook waits, a module loads at once. -/
theorem exists_loads (made : m ∈ world) (bare : (world.module m).hooks.getD [] = []) :
    ∃ last, Loads m world last ∧
      (last.module m).pendingWildcards = (world.module m).pendingWildcards := by
  cases hooks : (world.module m).hooks with
  | none => exact ⟨world, .already hooks, rfl⟩
  | some queue =>
    rw [hooks] at bare
    cases (bare : queue = [])
    refine ⟨_, .now hooks .nil, ?_⟩
    rw [module_record, module_update_self _ made]
    rfl

end World

namespace Machine

variable {machine : Machine σ} {world : World σ} {m : ModuleId} {base : List (Frame σ)}

/-- A machine that executes a module's body: it is in the factory, in a resumption, or in the hooks that
follow the last one, or between these, or it has come to the end. -/
inductive Fills (m : ModuleId) : Machine σ → Prop
  | demand (world : World σ) : Fills m ⟨.demand (.wildcards m), [.caller .done], world⟩
  | answer (outcome : Outcome) (world : World σ) : Fills m ⟨.answer outcome, [.caller .done], world⟩
  | ended (outcome : Outcome) (world : World σ) : Fills m ⟨.answer outcome, [], world⟩
  | building (control : Control σ) (frames : List (Frame σ)) (body : Body σ) (world : World σ) :
      Fills m ⟨control, frames ++ [.building m body, .caller .done], world⟩
  | stepping (control : Control σ) (frames : List (Frame σ)) (verdict : Value → Step)
      (world : World σ) :
      Fills m ⟨control, frames ++ [.stepping m verdict (.wildcards m), .caller .done], world⟩
  | hooks (control : Control σ) (frames : List (Frame σ)) (rest : List (Hook σ)) (world : World σ) :
      (world.module m).slot.state = .completed →
      Fills m ⟨control, frames ++ [.hooks m rest (.goOn (.wildcards m)), .caller .done], world⟩

/-- What runs above some frames goes on, or it has come to an outcome for the first of them. -/
theorem step_append (control : Control σ) (frames : List (Frame σ)) (frame : Frame σ)
    (rest : List (Frame σ)) (world : World σ) :
    step ⟨control, frames ++ frame :: rest, world⟩ =
        (step ⟨control, frames, world⟩).above (frame :: rest) ∨
      ∃ outcome, step ⟨control, frames ++ frame :: rest, world⟩ =
        resumeFrame rest world frame outcome := by
  cases ended : outcome? ⟨control, frames, world⟩ with
  | none => exact .inl (step_above (frame :: rest) ended)
  | some outcome =>
    have same := eq_of_outcome? ended
    simp only [mk.injEq] at same
    obtain ⟨rfl, rfl, _⟩ := same
    exact .inr ⟨outcome, rfl⟩

theorem outcome?_append (control : Control σ) (frames : List (Frame σ)) (frame : Frame σ)
    (rest : List (Frame σ)) (world : World σ) :
    outcome? ⟨control, frames ++ frame :: rest, world⟩ = none := by
  unfold outcome?
  split
  · next stack => simp at stack
  · rfl

theorem pending_of_began {body : Body σ} {stack : List (Frame σ)}
    (began : turn ⟨.demand (.wildcards m), stack, world⟩ = .began m body) :
    0 < (world.module m).pendingWildcards := by
  refine Nat.pos_of_ne_zero fun filled => ?_
  simp only [turn, Demand.awaited?_wildcards_of_zero filled] at began
  cases began

theorem mem_owners_append {frame : Frame σ} {frames base : List (Frame σ)} (inside : frame ∈ frames)
    (owner : frame.owner? = some m) : m ∈ owners (holding (frames ++ base)) := by
  rw [owners_holding]
  exact mem_owners.mpr ⟨frame, List.mem_append_left base inside, owner⟩

/-- A resumption of the module begins only while merges are missing. -/
theorem Fills.pending {body : Body σ} (fills : machine.Fills m)
    (orderly : Orderly machine.world (holding (machine.stack ++ base)))
    (began : machine.turn = .began m body) : 0 < (machine.world.module m).pendingWildcards := by
  have enabled := machine.transition.enabled
  rw [began] at enabled
  obtain ⟨free, ready⟩ := enabled
  have unowned {frame : Frame σ} (inside : frame ∈ machine.stack) : frame.owner? ≠ some m := by
    intro owner
    cases ((orderly.held m).mp (mem_owners_append inside owner)).2.symm.trans free
  cases fills with
  | demand world => exact pending_of_began began
  | answer | ended => cases began
  | building | stepping =>
    exact absurd rfl (unowned (List.mem_append_right _ List.mem_cons_self))
  | hooks control frames rest world completed =>
    have slot := (orderly.shaped m (World.mem_of_free free)).of_ready ready
    rw [show (world.module m).slot = _ from slot] at completed
    cases completed

theorem fills_runHooks (completed : (world.module m).slot.state = .completed)
    (queue : List (Hook σ)) :
    Fills m (runHooks m (.goOn (.wildcards m)) [.caller .done] world queue) := by
  cases queue with
  | nil => exact .demand world
  | cons hook rest => exact .hooks _ [] rest _ (by rwa [World.module_record])

theorem fills_load (completed : (world.module m).slot.state = .completed) :
    Fills m (load m (.goOn (.wildcards m)) [.caller .done] world) := by
  unfold load
  split
  · exact fills_runHooks completed []
  · refine fills_runHooks ?_ _
    rw [World.module_record, World.module_update_self _ (World.mem_of_completed completed)]
    exact completed

theorem fills_demand (world : World σ) :
    (step ⟨.demand (.wildcards m), [.caller .done], world⟩).Fills m := by
  rcases Demand.awaited?_wildcards m world with unawaited | awaited
  · rw [step_of_unawaited unawaited]
    exact .answer .unit _
  · rw [step_of_awaited awaited]
    unfold advance
    split
    · exact .answer .unit _
    · split
      · exact .answer _ _
      · exact .answer .unit _
      · exact .answer .unit _
      · next body _ => exact .stepping _ [] body.verdict _

theorem fills_stepped {verdict : Value → Step} (made : m ∈ world) (outcome : Outcome) :
    (resumeFrame [.caller .done] world (.stepping m verdict (.wildcards m)) outcome).Fills m := by
  cases outcome with
  | panicked message => exact .answer _ _
  | failed cause => exact .answer _ _
  | returned value =>
    simp only [resumeFrame]
    split
    · exact .demand _
    · refine fills_load ?_
      rw [World.module_record, World.module_update_self _ made]
      rfl

theorem Fills.step (fills : machine.Fills m)
    (orderly : Orderly machine.world (holding (machine.stack ++ base))) : machine.step.Fills m := by
  cases fills with
  | demand world => exact fills_demand world
  | answer outcome world | ended outcome world => exact .ended outcome world
  | building control frames body world =>
    rcases step_append control frames (.building m body) [.caller .done] world with
      goesOn | ⟨outcome, handed⟩
    · rw [goesOn]
      exact .building _ _ body _
    · rw [handed]
      cases outcome with
      | panicked message => exact .answer _ _
      | failed cause | returned value => exact .demand _
  | stepping control frames verdict world =>
    rcases step_append control frames (.stepping m verdict (.wildcards m)) [.caller .done] world with
      goesOn | ⟨outcome, handed⟩
    · rw [goesOn]
      exact .stepping _ _ verdict _
    · rw [handed]
      have held := (orderly.held m).mp
        (mem_owners_append (List.mem_append_right frames List.mem_cons_self) rfl)
      exact fills_stepped held.1 outcome
  | hooks control frames rest world completed =>
    rcases step_append control frames (.hooks m rest (.goOn (.wildcards m))) [.caller .done] world with
      goesOn | ⟨outcome, handed⟩
    -- What the hook runs cannot change a body that has ended.
    · have going := outcome?_append control frames (.hooks m rest (.goOn (.wildcards m)))
        [.caller .done] world
      have final : (world.module m).slot.state.isFinal = true := by
        rw [completed]
        rfl
      have reach := Reaches.of_step (step_above base going)
      have kept := reach.life_of_final orderly (World.mem_of_completed completed) final
      rw [goesOn] at kept ⊢
      exact .hooks _ _ rest _ ((congrArg Slot.state (Module.slot_of_life kept)).trans completed)
    · rw [handed]
      cases outcome with
      | panicked message => exact .answer _ _
      | failed cause | returned value => exact fills_runHooks completed rest

end Machine

namespace World

variable {world start : World σ} {m : ModuleId} {factory : Program σ}
  {statements : List (ModuleId → Program σ)}

theorem Attaches.grows {body : Body σ} (attaches : world.Attaches m factory body start) :
    world.Grows start := by
  obtain @⟨made, built, ends, calm⟩ := attaches
  have held : world.Grows (world.update m Module.hold) :=
    world.grows_update_of_surface m fun _ => rfl
  have attached : built.Grows (built.update m (·.attach body)) :=
    built.grows_update_of_surface m fun _ => rfl
  exact (held.trans (ends []).grows).trans (attached.trans (grows_record ..))

end World

end LiveBindings
