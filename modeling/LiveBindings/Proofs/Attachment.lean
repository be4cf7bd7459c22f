import LiveBindings.Operation
import LiveBindings.Proofs.Loaded

namespace LiveBindings

open Machine

variable {σ : Type} {allowed : Program σ → Prop}

theorem Module.state_eq_pending {module : Module σ} :
    module.state = .pending ↔ module.held = false ∧ module.slot.state = .pending := by
  unfold state
  split
  · next held => simp [held]
  · next free => simp [free]

namespace Machine

variable {machine : Machine σ} {m : ModuleId} {factory : Program σ}
  {code : Nat → ModuleId → Program σ} {ending : Ending} {next : Outcome → Program σ}

/-- A body was attached to the module in the given turns, or a factory is making one. -/
def Taken (m : ModuleId) (machine : Machine σ) (turns : List (Turn σ)) : Prop :=
  bodies m turns ≠ [] ∨ ∃ body, .building m body ∈ machine.stack

theorem step_execute_of_pending
    (control : machine.control = .run (.execute m factory code ending next))
    (pending : (machine.world.module m).state = .pending) :
    machine.step = ⟨.run factory, .building m ⟨0, code, ending⟩ :: .caller next :: machine.stack,
      machine.world.update m Module.hold⟩ := by
  obtain ⟨_, stack, world⟩ := machine
  cases control
  exact if_pos (Module.state_eq_pending.mp pending)

theorem step_execute_of_not_pending
    (control : machine.control = .run (.execute m factory code ending next))
    (begun : (machine.world.module m).state ≠ .pending) :
    machine.step = ⟨.run (next (.failed (.alreadyAttached (machine.world.label m)))),
      machine.stack, machine.world⟩ := by
  obtain ⟨_, stack, world⟩ := machine
  cases control
  exact if_neg fun free => begun (Module.state_eq_pending.mpr free)

/-- A factory that was begun comes to its end below the frame that takes the body from it. -/
theorem reaches_built {outcome : Outcome} {later : World σ}
    (control : machine.control = .run (.execute m factory code ending next))
    (pending : (machine.world.module m).state = .pending)
    (ends : (Control.run factory).Ends (machine.world.update m Module.hold) outcome later) :
    machine.Reaches ⟨.answer outcome,
      .building m ⟨0, code, ending⟩ :: .caller next :: machine.stack, later⟩ := by
  refine .step ?_
  rw [step_execute_of_pending control pending]
  exact ends _

/-- How a module is given its body, where a run with the given turns has come to. -/
structure GivesOneBody (allowed : Program σ → Prop) (m : ModuleId) (machine : Machine σ)
    (turns : List (Turn σ)) : Prop where
  once : (bodies m turns).length ≤ 1
  /-- When there was a body or one is being made, whoever offers another one is told so at once,
  without a run of the factory, in the world as it is. -/
  refused : machine.Taken m turns → ∀ factory code ending next,
    machine.control = .run (.execute m factory code ending next) →
      machine.step = ⟨.run (next (.failed (.alreadyAttached (machine.world.label m)))),
        machine.stack, machine.world⟩
  /-- Otherwise the factory begins, and the module is held until the factory ends. -/
  begins : ¬ machine.Taken m turns → ∀ factory code ending next,
    machine.control = .run (.execute m factory code ending next) →
      machine.step =
        ⟨.run factory, .building m ⟨0, code, ending⟩ :: .caller next :: machine.stack,
          machine.world.update m Module.hold⟩
  /-- When the factory returns, or stops with a fault, the body is attached, and it is the only one of
  the run. -/
  attaches : ¬ machine.Taken m turns → ∀ factory code ending next outcome later,
    machine.control = .run (.execute m factory code ending next) → outcome.Calm →
      (Control.run factory).Ends (machine.world.update m Module.hold) outcome later →
        ∃ during world, Run allowed ⟨.demand (.wildcards m), .caller next :: machine.stack, world⟩
            (turns ++ during) ∧ bodies m (turns ++ during) = [⟨0, code, ending⟩]
  /-- When the factory panics, the panic is the caller's. No body is attached, and the module is as if
  none had been offered, so that it may be given another one. -/
  panics : ¬ machine.Taken m turns → ∀ factory code ending next message later,
    machine.control = .run (.execute m factory code ending next) →
      (Control.run factory).Ends (machine.world.update m Module.hold) (.panicked message) later →
        ∃ during, Run allowed
            ⟨.run (next (.panicked message)), machine.stack, later.update m Module.release⟩
            (turns ++ during) ∧
          ((later.update m Module.release).module m).life = .fresh ∧
          ¬ Taken m ⟨.run (next (.panicked message)), machine.stack,
            later.update m Module.release⟩ (turns ++ during)

end Machine

namespace Run

variable {machine : Machine σ} {turns : List (Turn σ)} {m : ModuleId} {factory : Program σ}
  {code : Nat → ModuleId → Program σ} {ending : Ending} {next : Outcome → Program σ}
  {later : World σ}

/-- Whether a module is taken can be seen of it. -/
theorem taken_iff (run : Run allowed machine turns) (made : m ∈ machine.world) :
    machine.Taken m turns ↔ (machine.world.module m).state ≠ .pending := by
  rw [Ne, run.pending_iff made, Machine.Taken, Classical.not_and_iff_not_or_not,
    Classical.not_forall_not]

theorem exists_attached {outcome : Outcome} (run : Run allowed machine turns)
    (control : machine.control = .run (.execute m factory code ending next))
    (pending : (machine.world.module m).state = .pending) (calm : outcome.Calm)
    (ends : (Control.run factory).Ends (machine.world.update m Module.hold) outcome later) :
    ∃ during world, Run allowed ⟨.demand (.wildcards m), .caller next :: machine.stack, world⟩
      (turns ++ during) ∧ bodies m (turns ++ during) = [⟨0, code, ending⟩] := by
  obtain ⟨during, built⟩ := run.reaches (reaches_built control pending ends)
  have told : .attached m ⟨0, code, ending⟩ ∈
      turns ++ (during ++ [.attached m ⟨0, code, ending⟩]) := by simp
  have attached := built.step
  rw [List.append_assoc] at attached
  cases outcome with
  | panicked message => exact absurd rfl (calm message)
  | failed cause | returned value =>
    exact ⟨_, _, attached, (attached.bodies_of_attached told).2⟩

theorem exists_dropped {message : String} (run : Run allowed machine turns)
    (control : machine.control = .run (.execute m factory code ending next))
    (pending : (machine.world.module m).state = .pending)
    (ends : (Control.run factory).Ends (machine.world.update m Module.hold) (.panicked message)
      later) :
    ∃ during, Run allowed
        ⟨.run (next (.panicked message)), machine.stack, later.update m Module.release⟩
        (turns ++ during) ∧ ((later.update m Module.release).module m).life = .fresh := by
  obtain ⟨during, built⟩ := run.reaches (reaches_built control pending ends)
  have dropped := built.step.step
  rw [List.append_assoc, List.append_assoc] at dropped
  refine ⟨_, dropped, ?_⟩
  -- The frame of the factory tells that no body was attached by the time that the panic comes to it.
  have empty : (later.module m).slot = .empty := by
    cases built.fits List.mem_cons_self rfl with
    | building slot => exact slot
  have made : m ∈ later :=
    ((built.orderly.held m).mp (mem_owners.mpr ⟨_, List.mem_cons_self, rfl⟩)).1
  have steps := ((built.orderly.shaped m made).of_pending (by rw [empty]; rfl)).2
  rw [World.module_update_self _ made]
  simp [Module.life, Module.release, Life.fresh, empty, steps]

end Run

/-- In every run, whatever the context of the calls is, a module is given one body at most. -/
theorem one_body_attached {machine : Machine σ} {turns : List (Turn σ)} {m : ModuleId}
    (run : Run allowed machine turns) (made : m ∈ machine.world) :
    machine.GivesOneBody allowed m turns := by
  have untaken (free : ¬ machine.Taken m turns) : (machine.world.module m).state = .pending :=
    Classical.not_not.mp (mt (run.taken_iff made).mpr free)
  refine ⟨(run.chronicle m).length_given, ?_, ?_, ?_, ?_⟩
  · intro taken factory code ending next control
    exact step_execute_of_not_pending control ((run.taken_iff made).mp taken)
  · intro free factory code ending next control
    exact step_execute_of_pending control (untaken free)
  · intro free factory code ending next outcome later control calm ends
    exact run.exists_attached control (untaken free) calm ends
  · intro free factory code ending next message later control ends
    obtain ⟨during, dropped, fresh⟩ := run.exists_dropped control (untaken free) ends
    refine ⟨during, dropped, fresh, fun taken => ?_⟩
    have still : m ∈ later.update m Module.release :=
      World.mem_of_free (congrArg Life.held fresh)
    refine (dropped.taken_iff still).mp taken (Module.state_eq_pending.mpr ⟨?_, ?_⟩)
    · exact congrArg Life.held fresh
    · exact congrArg (Slot.state ∘ Life.slot) fresh

/-- The first factory of a module offers it a body itself, and panics with the fault that it gets. The
second one gives a body, whose only statement offers one more. -/
def insisting : Program Unit :=
  Code.program do
    let m ← Code.create [.named "x"] ⟨some "m", .lenient⟩
    let again : Code Unit Value := Code.executeStatements m Code.unit []
    let factory : Code Unit Value := do
      match ← again.outcome with
      | .failed fault => Code.panic fault.message
      | _ => Code.unit
    let _ ← (Code.executeStatements m factory []).outcome
    let _ ← Code.executeStatements m Code.unit [fun _ => again]
    Code.finish m

/-- The machine that runs the program, after so many transitions. -/
def insistingAfter (count : Nat) : Machine Unit :=
  (Machine.start insisting (.empty .standard ())).after count

theorem one_body_attached_of_insisting :
    let fault := Fault.alreadyAttached "m"
    let first := insistingAfter 1
    let nested := insistingAfter 2
    let inside := insistingAfter 11
    (first.world.module 0).state = .pending ∧
      (∃ turns later, Run (fun _ => True) later turns ∧ bodies 0 turns = [] ∧ later.stack = [] ∧
        later.control = (insistingAfter 5).control ∧ (later.world.module 0).life = .fresh) ∧
      nested.step = ⟨.answer (.panicked fault.message), nested.stack, nested.world⟩ ∧
      (inside.world.module 0).state = .running ∧
      inside.step = ⟨.answer (.failed fault), inside.stack, inside.world⟩ := by
  intro fault first nested inside
  have run (count : Nat) : Run (fun _ => True) (insistingAfter count) _ :=
    (Run.start .standard () trivial).after count
  have made (count : Nat) (size : (insistingAfter count).world.modules.length = 1) :
      0 ∈ (insistingAfter count).world := World.mem_iff.mpr (size ▸ Nat.one_pos)
  have before := one_body_attached (run 1) (made 1 rfl)
  have within := one_body_attached (run 2) (made 2 rfl)
  have later := one_body_attached (run 11) (made 11 rfl)
  have free : ¬ first.Taken 0 _ := mt ((run 1).taken_iff (made 1 rfl)).mp (· rfl)
  obtain ⟨during, dropped, fresh, untaken⟩ := before.panics free _ _ _ _ fault.message _ rfl
    (Control.ends_of_reaches (reaches_after _ 1))
  have bare : bodies 0 _ = [] := Classical.not_not.mp fun given => untaken (.inl given)
  exact ⟨rfl, ⟨_, _, dropped, bare, rfl, rfl, fresh⟩,
    within.refused (.inr ⟨_, List.mem_cons_self⟩) _ _ _ _ rfl, rfl,
    later.refused (((run 11).taken_iff (made 11 rfl)).mpr nofun) _ _ _ _ rfl⟩

end LiveBindings
