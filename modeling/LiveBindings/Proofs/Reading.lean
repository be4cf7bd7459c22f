import LiveBindings.Proofs.Reach

namespace LiveBindings

open Machine

variable {σ : Type}

theorem Module.peek_of_lacks {module : Module σ} {name : String} (lacks : module.lacks name) :
    module.peek name = none :=
  Option.isNone_iff_eq_none.mp (Bool.and_eq_true_iff.mp lacks).1

/-- What reading a name of a module gives when the module goes no further. -/
def Module.reading (module : Module σ) (name : String) : Except Fault Value :=
  (module.peek name).elim (module.unsettled name) .ok

theorem Module.reading_of_peek {module : Module σ} {name : String} {value : Value}
    (settled : module.peek name = some value) : module.reading name = .ok value := by
  simp only [reading, settled, Option.elim]

theorem Module.reading_of_missing {module : Module σ} {name : String}
    (missing : module.peek name = none) : module.reading name = module.unsettled name := by
  simp only [reading, missing, Option.elim]

/-- The outcome that hands over a result. -/
def Outcome.of : Except Fault Value → Outcome
  | .ok value => .returned value
  | .error fault => .failed fault

namespace Demand

variable {how : Reading} {target : Target} {name : String} {world later : World σ}

/-- What a read gives when the module goes no further. -/
def reading (target : Target) (world : World σ) : Except Fault Value :=
  target.remote.bind (world.module target.source).reading

theorem awaited?_read (how : Reading) (target : Target) (world : World σ) :
    (Demand.read how target).awaited? world = none ∨
      (Demand.read how target).awaited? world = some target.source := by
  simp only [awaited?]
  split
  · split
    · exact .inr rfl
    · exact .inl rfl
  · exact .inl rfl

theorem awaited?_of_remote (how : Reading) (remote : target.remote = .ok name) :
    (Demand.read how target).awaited? world =
      if (world.module target.source).lacks name then some target.source else none := by
  simp only [awaited?, remote]

theorem lacks_of_awaited (remote : target.remote = .ok name)
    (awaited : (Demand.read how target).awaited? world = some target.source) :
    (world.module target.source).lacks name = true := by
  rw [awaited?_of_remote how remote] at awaited
  split at awaited
  · next lacks => exact lacks
  · cases awaited

theorem lacks_of_unawaited (remote : target.remote = .ok name)
    (unawaited : (Demand.read how target).awaited? world = none) :
    (world.module target.source).lacks name = false := by
  rw [awaited?_of_remote how remote] at unawaited
  split at unawaited
  · cases unawaited
  · next lacks => exact Bool.not_eq_true _ ▸ lacks

theorem deliver_eq_answer (how : Reading) (target : Target) (world : World σ)
    (result : Except Fault Value) :
    ∃ outcome, (deliver how target world result).1 = .answer outcome := by
  unfold deliver
  split
  · exact ⟨_, rfl⟩
  · split
    · exact ⟨_, rfl⟩
    · split <;> exact ⟨_, rfl⟩

theorem deliver_resolve (target : Target) (world : World σ) (result : Except Fault Value) :
    deliver .resolve target world result = (.answer (.of result), world) := by
  cases result <;> rfl

theorem proceed_read (how : Reading) (target : Target) (world : World σ) :
    (Demand.read how target).proceed world = deliver how target world (reading target world) := by
  simp only [proceed, reading]
  split
  · next remote =>
    rw [remote, Except.bind]
    split
    · next settled =>
      rw [Module.reading_of_peek settled]
      rfl
    · next missing => rw [giveUp, remote, Except.bind, Module.reading_of_missing missing]
  · next remote => rw [remote, Except.bind]

theorem giveUp_of_awaited
    (awaited : (Demand.read how target).awaited? world = some target.source) :
    giveUp how target world = deliver how target world (reading target world) := by
  unfold giveUp reading
  cases remote : target.remote with
  | error fault => rfl
  | ok name =>
    have missing := Module.peek_of_lacks (lacks_of_awaited remote awaited)
    simp only [Except.bind, Module.reading_of_missing missing]

/-- A read that does not wait any more gives what there is. -/
theorem reaches_of_unawaited (unawaited : (Demand.read how target).awaited? world = none)
    (stack : List (Frame σ)) : Reaches ⟨.demand (.read how target), stack, world⟩
      (join stack (deliver how target world (reading target world))) :=
  .of_step (by rw [step_of_unawaited unawaited, proceed_read])

end Demand

end LiveBindings
