import LiveBindings.Operation
import LiveBindings.Proofs.Alike

namespace LiveBindings

variable {σ : Type}

/-- The program reads leniently and looks at no configuration, in all of its parts: what follows its
operations, and the factories, bodies, hooks and functions that it hands over. -/
inductive Program.Lenient : Program σ → Prop
  | done (outcome : Outcome) : Lenient (.done outcome)
  | host {change next} : (∀ state, Lenient (next state)) → Lenient (.host change next)
  | act {action next} : action.Lenient → (∀ reply, Lenient (next reply)) →
      Lenient (.act action next)
  | demand {demand next} : demand.Lenient → (∀ outcome, Lenient (next outcome)) →
      Lenient (.demand demand next)
  | commit {m entries next} : (∀ outcome, Lenient (next outcome)) → Lenient (.commit m entries next)
  | execute {m factory code ending next} : Lenient factory → (∀ i m, Lenient (code i m)) →
      (∀ outcome, Lenient (next outcome)) → Lenient (.execute m factory code ending next)
  | importer {m hook next} : (∀ m, Lenient (hook m)) → (∀ outcome, Lenient (next outcome)) →
      Lenient (.importer m hook next)
  | function {name code next} : (∀ arguments, Lenient (code arguments)) →
      (∀ value, Lenient (next value)) → Lenient (.function name code next)
  | call {callee arguments next} : (∀ outcome, Lenient (next outcome)) →
      Lenient (.call callee arguments next)
  | detach {code ending next} : (∀ i m, Lenient (code i m)) → (∀ body, Lenient (next body)) →
      Lenient (.detach code ending next)
  | resume {body m next} : (∀ outcome, Lenient (next outcome)) → Lenient (.resume body m next)
  | remaining {body next} : (∀ count, Lenient (next count)) → Lenient (.remaining body next)

/-- The program with the policy of every module that it makes, in all of its parts, set to the one that
lets every read pass. -/
def Program.relaxed : Program σ → Program σ
  | .done outcome => .done outcome
  | .host change next => .host change fun state => (next state).relaxed
  | .act (.create names config) next =>
    .act (.create names config.relaxed) fun m => (next m).relaxed
  | .act action next => .act action fun reply => (next reply).relaxed
  | .demand asked next => .demand asked fun outcome => (next outcome).relaxed
  | .commit m entries next => .commit m entries fun outcome => (next outcome).relaxed
  | .execute m factory code ending next =>
    .execute m factory.relaxed (fun i m => (code i m).relaxed) ending fun outcome =>
      (next outcome).relaxed
  | .importer m hook next =>
    .importer m (fun m => (hook m).relaxed) fun outcome => (next outcome).relaxed
  | .function name code next =>
    .function name (fun arguments => (code arguments).relaxed) fun value => (next value).relaxed
  | .call callee arguments next => .call callee arguments fun outcome => (next outcome).relaxed
  | .detach code ending next =>
    .detach (fun i m => (code i m).relaxed) ending fun body => (next body).relaxed
  | .resume body m next => .resume body m fun outcome => (next outcome).relaxed
  | .remaining body next => .remaining body fun count => (next count).relaxed

theorem Program.Lenient.alike {program : Program σ} (lenient : program.Lenient) :
    program.Alike program.relaxed := by
  induction lenient with
  | done outcome => exact .done outcome
  | host _ ih => exact .host ih
  | @act action next lenient _ ih =>
    cases action with
    | create names config => exact .create rfl ih
    | _ => exact .act lenient ih
  | demand lenient _ ih => exact .demand lenient ih
  | commit _ ih => exact .commit ih
  | execute _ _ _ made code ih => exact .execute made code ih
  | importer _ _ hook ih => exact .importer hook ih
  | function _ _ code ih => exact .function code ih
  | call _ ih => exact .call ih
  | detach _ _ code ih => exact .detach code ih
  | resume _ ih => exact .resume ih
  | remaining _ ih => exact .remaining ih

/-- What two machines have in common whose modules differ in policies. -/
structure Machine.Resembles (one other : Machine σ) : Prop where
  ends : one.outcome? = other.outcome?
  /-- If one hands over an answer, so does the other: the same value, the same fault or the same
  panic. -/
  answers : ∀ outcome, one.control = .answer outcome ↔ other.control = .answer outcome
  /-- What is done at once gets the same reply. -/
  replies : ∀ action : Action, action.Lenient →
    (action.perform one.world).1 = (action.perform other.world).1
  /-- The same code goes on. -/
  control : one.control.Alike other.control
  made : one.world.modules.length = other.world.modules.length
  observed : ∀ m, (one.world.module m).observation = (other.world.module m).observation
  failure : ∀ m, (one.world.module m).slot.failure = (other.world.module m).slot.failure
  queued : ∀ m, (one.world.module m).hooks.map (·.map Hook.ticket) =
    (other.world.module m).hooks.map (·.map Hook.ticket)
  /-- The same happened in the same order, hooks included; only warnings may be missing from one of
  the journals. -/
  journal : one.world.journal.filter (!·.warns) = other.world.journal.filter (!·.warns)
  host : one.world.host = other.world.host

theorem World.Alike.queued {one other : World σ} (alike : one.Alike other) (m : ModuleId) :
    (one.module m).hooks.map (·.map Hook.ticket) =
      (other.module m).hooks.map (·.map Hook.ticket) := by
  have tickets {queue queue' : List (Hook σ)} (hooks : List.Forall₂ Hook.Alike queue queue') :
      queue.map Hook.ticket = queue'.map Hook.ticket := by
    induction hooks with
    | nil => rfl
    | cons head _ ih => rw [List.map_cons, List.map_cons, head.ticket, ih]
  have hooks := (alike.module m).hooks
  generalize (one.module m).hooks = queue at hooks ⊢
  generalize (other.module m).hooks = queue' at hooks ⊢
  cases hooks with
  | none => rfl
  | some queued => exact congrArg some (tickets queued)

theorem Machine.Alike.resembles {one other : Machine σ} (alike : one.Alike other) :
    one.Resembles other where
  ends := by
    obtain ⟨control, stack, world⟩ := one
    obtain ⟨control', stack', world'⟩ := other
    obtain ⟨works, waits, _⟩ := alike
    cases works with
    | demand => rfl
    | run programs => cases programs <;> cases waits <;> rfl
  answers outcome := by
    obtain ⟨control, _, _⟩ := one
    obtain ⟨control', _, _⟩ := other
    obtain ⟨works, _, _⟩ := alike
    cases works with
    | demand => exact ⟨nofun, nofun⟩
    | run programs =>
      cases programs with
      | done => rfl
      | _ => exact ⟨nofun, nofun⟩
  replies _ lenient := (alike.world.perform lenient).1
  control := alike.control
  made := alike.world.length
  observed m := (alike.world.module m).observation
  failure m := congrArg (·.slot.failure) (alike.world.bare m)
  queued := alike.world.queued
  journal := alike.world.journal
  host := alike.world.host

/-- Whatever policies a program that reads leniently gives to its modules, it runs as if each of them let
every read pass. -/
theorem policies_unseen {program : Program σ} (lenient : program.Lenient) (template : Config)
    (host : σ) (count : Nat) :
    ((Machine.start program (.empty template host)).after count).Resembles
      ((Machine.start program.relaxed (.empty template.relaxed host)).after count) := by
  have templates : template.relaxed = template.relaxed.relaxed := rfl
  have alike : (Machine.start program (.empty template host)).Alike
      (.start program.relaxed (.empty template.relaxed host)) :=
    ⟨.run lenient.alike, .nil, .empty templates host⟩
  exact (alike.after count).resembles

/-- The body of a strict module ends without settling its name, which is then read. -/
def disappointing : Program Unit :=
  Code.program do
    let m ← Code.create [.named "x"] { Config.standard with policy := .strict }
    let _ ← Code.executeStatements m Code.unit [fun _ => Code.unit]
    let _ ← Code.finish m
    Code.get m "x"

theorem lenient_disappointing : disappointing.Lenient := by
  refine .act trivial fun m => .execute (.done _) (fun i m => ?_) fun outcome => ?_
  · cases i <;> exact .done _
  · cases outcome with
    | failed | panicked => exact .done _
    | returned value =>
      refine .demand trivial fun outcome => ?_
      cases outcome with
      | failed | panicked => exact .done _
      | returned value => exact .demand rfl fun _ => .done _

theorem policies_unseen_of_disappointing :
    ∃ strict lenient : Machine Unit, strict.Resembles lenient ∧
      strict.outcome? = some .unit ∧ lenient.outcome? = some .unit ∧
      strict.world.journal =
        .exportReadFailed 0 "x" (.exportNotFound anonymousLabel "x") :: lenient.world.journal :=
  ⟨_, _, policies_unseen lenient_disappointing .standard () 15, rfl, rfl, rfl⟩

end LiveBindings
