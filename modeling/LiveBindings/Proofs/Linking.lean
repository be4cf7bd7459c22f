import LiveBindings.Operation

namespace LiveBindings

variable {σ α β : Type}

/-- Code that links modules. It attaches bodies, which are lists of statements that attach none, only
if it is said to. -/
inductive Linking : (executes : Bool) → Program σ → Prop
  | done {executes} (outcome : Outcome) : Linking executes (.done outcome)
  | host {executes change next} : (∀ state, Linking executes (next state)) →
      Linking executes (.host change next)
  | act {executes action next} : (∀ reply, Linking executes (next reply)) →
      Linking executes (.act action next)
  | demand {executes demand next} : (∀ outcome, Linking executes (next outcome)) →
      Linking executes (.demand demand next)
  | commit {executes m entries next} : (∀ outcome, Linking executes (next outcome)) →
      Linking executes (.commit m entries next)
  | execute {m factory statements next} : Linking false factory →
      (∀ statement ∈ statements, Linking false (statement m)) →
      (∀ outcome, Linking true (next outcome)) →
      Linking true (.execute m factory (Program.statements statements)
        (.afterStatements statements.length) next)

variable {executes : Bool}

theorem Linking.executing {program : Program σ} (linking : Linking executes program) :
    Linking true program := by
  induction linking with
  | done outcome => exact .done outcome
  | host _ ih => exact .host ih
  | act _ ih => exact .act ih
  | demand _ ih => exact .demand ih
  | commit _ ih => exact .commit ih
  | execute factory statements next => exact .execute factory statements next

/-- Code that links if what follows it does. -/
def Code.Links (executes : Bool) (code : Code σ α) : Prop :=
  ∀ next, (∀ result, Linking executes (next result)) → Linking executes (code next)

namespace Code.Links

theorem program {code : Code σ Value} (links : code.Links executes) :
    Linking executes code.program := links .done .done

theorem ret (value : α) : (Code.ret value : Code σ α).Links executes := fun _ follows => follows _

theorem fail (fault : Fault) : (Code.fail fault : Code σ α).Links executes :=
  fun _ follows => follows _

theorem bind {code : Code σ α} {rest : α → Code σ β} (first : code.Links executes)
    (later : ∀ value, (rest value).Links executes) : (code >>= rest).Links executes := by
  intro next follows
  refine first _ fun result => ?_
  cases result with
  | returned value => exact later value next follows
  | failed fault => exact follows _
  | panicked message => exact follows _

theorem outcome {code : Code σ α} (links : code.Links executes) : code.outcome.Links executes :=
  fun _ follows => links _ fun _ => follows _

theorem act (action : Action) : (Code.act action : Code σ action.Reply).Links executes :=
  fun _ follows => .act fun _ => follows _

theorem demand (demand : Demand) : (Code.demand demand : Code σ Value).Links executes :=
  fun _ follows => .demand follows

theorem commit (m : ModuleId) (entries : List (String × Value)) :
    (Code.commit m entries : Code σ Value).Links executes := fun _ follows => .commit follows

theorem settle (m : ModuleId) (name : String) (value : Value) :
    (Code.settle m name value : Code σ Value).Links executes := by
  refine (act (.settle m name value)).bind fun reply => ?_
  cases reply with
  | ok _ => exact ret _
  | error fault => exact fail fault

theorem merge (m source : ModuleId) : (Code.merge m source : Code σ Value).Links executes :=
  (act (.merge m source)).bind fun _ => ret _

theorem executeStatements {m : ModuleId} {factory : Code σ Value}
    {statements : List (ModuleId → Code σ Value)} (made : factory.Links false)
    (stated : ∀ statement ∈ statements, (statement m).Links false) :
    (Code.executeStatements m factory statements).Links true := by
  intro next follows
  have linking : ∀ statement ∈ statements.map fun piece m => (piece m).program,
      Linking false (statement m) := by
    intro statement member
    obtain ⟨piece, among, rfl⟩ := List.mem_map.mp member
    exact (stated piece among).program
  have execute := Linking.execute made.program linking follows
  rwa [List.length_map] at execute

end Code.Links

end LiveBindings
