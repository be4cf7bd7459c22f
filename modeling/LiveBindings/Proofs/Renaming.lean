import LiveBindings.Machine
import LiveBindings.Proofs.Nesting
import Mathlib.Algebra.Group.Action.Defs
import Mathlib.Algebra.Group.End
import Mathlib.Algebra.Group.Pi.Basic

namespace LiveBindings

variable {σ : Type}

/-- What is numbered in the order in which it is made. -/
inductive Kind
  | module
  | function
  | body
  deriving DecidableEq

/-- Other numbers for all that is made. -/
abbrev Renaming := Kind → Equiv.Perm Nat

namespace Table

variable {α β γ : Type}

/-- The table with what stands under its keys replaced. -/
def map (f : α → β) (table : Table α) : Table β where
  entries := table.entries.map fun entry => (entry.1, f entry.2)
  sorted := by simpa [Function.comp_def] using table.sorted

theorem findIn_map (f : α → β) (key : String) (list : List (String × α)) :
    findIn key (list.map fun entry => (entry.1, f entry.2)) = (findIn key list).map f := by
  induction list with
  | nil => rfl
  | cons entry rest ih =>
    simp only [List.map_cons, findIn, ih]
    split <;> rfl

@[simp]
theorem find?_map (f : α → β) (table : Table α) (key : String) :
    (table.map f).find? key = (table.find? key).map f := findIn_map f key table.entries

@[simp]
theorem keys_map (f : α → β) (table : Table α) : (table.map f).keys = table.keys := by
  simp [keys, map, Function.comp_def]

theorem map_insert (f : α → β) (table : Table α) (key : String) (value : α) :
    (table.insert key value).map f = (table.map f).insert key (f value) := by
  refine eq_of_find? fun other => ?_
  simp only [find?_map, find?_insert]
  split <;> rfl

theorem map_id (table : Table α) : table.map (fun value => value) = table :=
  eq_of_find? fun key => by rw [find?_map, Option.map_id_fun', id]

theorem map_map (g : β → γ) (f : α → β) (table : Table α) :
    (table.map f).map g = table.map fun value => g (f value) :=
  eq_of_find? fun key => by
    rw [find?_map, find?_map, find?_map, Option.map_map]
    rfl

end Table

namespace Value

mutual

/-- The value with other identities for the functions in it. -/
def mapFunctions (f : FunctionId → FunctionId) : Value → Value
  | .undefined => .undefined
  | .null => .null
  | .boolean b => .boolean b
  | .number n => .number n
  | .string s => .string s
  | .array items => .array (mapItems f items)
  | .object fields => .object (mapFields f fields)
  | .function name id => .function name (f id)

def mapItems (f : FunctionId → FunctionId) : List Value → List Value
  | [] => []
  | item :: rest => mapFunctions f item :: mapItems f rest

def mapFields (f : FunctionId → FunctionId) : List (String × Value) → List (String × Value)
  | [] => []
  | (name, value) :: rest => (name, mapFunctions f value) :: mapFields f rest

end

theorem mapItems_eq (f : FunctionId → FunctionId) (items : List Value) :
    mapItems f items = items.map (mapFunctions f) := by
  induction items with
  | nil => rfl
  | cons item rest ih => rw [mapItems, ih, List.map_cons]

theorem mapFields_eq (f : FunctionId → FunctionId) (fields : List (String × Value)) :
    mapFields f fields = fields.map fun field => (field.1, mapFunctions f field.2) := by
  induction fields with
  | nil => rfl
  | cons field rest ih => rw [mapFields, ih, List.map_cons]

theorem mapFunctions_id (value : Value) : mapFunctions (fun id => id) value = value := by
  induction value with
  | array items ih =>
    rw [mapFunctions, mapItems_eq, List.map_congr_left ih, List.map_id']
  | object fields ih =>
    have same : ∀ field ∈ fields, (field.1, mapFunctions (fun id => id) field.2) = field :=
      fun field member => Prod.ext rfl (ih field member)
    rw [mapFunctions, mapFields_eq, List.map_congr_left same, List.map_id']
  | _ => rfl

theorem mapFunctions_mapFunctions (g f : FunctionId → FunctionId) (value : Value) :
    mapFunctions g (mapFunctions f value) = mapFunctions (fun id => g (f id)) value := by
  induction value with
  | array items ih =>
    simp only [mapFunctions, mapItems_eq, List.map_map]
    exact congrArg Value.array (List.map_congr_left ih)
  | object fields ih =>
    simp only [mapFunctions, mapFields_eq, List.map_map]
    exact congrArg Value.object (List.map_congr_left fun field member =>
      Prod.ext rfl (ih field member))
  | _ => rfl

instance : MulAction Renaming Value where
  smul π := mapFunctions (π .function)
  one_smul := mapFunctions_id
  mul_smul π ρ value := (mapFunctions_mapFunctions (π .function) (ρ .function) value).symm

variable (π : Renaming)

@[simp]
theorem smul_function (name : String) (id : FunctionId) :
    π • function name id = function name (π .function id) := rfl

end Value

namespace Result

instance : MulAction Renaming Outcome where
  smul π
    | .returned value => .returned (π • value)
    | .failed fault => .failed fault
    | .panicked message => .panicked message
  one_smul outcome := by
    cases outcome with
    | returned value => exact congrArg returned (one_smul Renaming value)
    | _ => rfl
  mul_smul π ρ outcome := by
    cases outcome with
    | returned value => exact congrArg returned (mul_smul π ρ value)
    | _ => rfl

variable (π : Renaming)

@[simp]
theorem smul_returned (value : Value) : π • (returned value : Outcome) = returned (π • value) := rfl

@[simp]
theorem smul_failed (fault : Fault) : π • (failed fault : Outcome) = failed fault := rfl

end Result

/-- What was observed, with other identities for the functions among the values. -/
def Observation.rename (π : Renaming) (seen : Observation) : Observation :=
  { seen with bindings := seen.bindings.map (π • ·) }

def View.rename (π : Renaming) (view : View) : View := { view with source := π .module view.source }

def Target.rename (π : Renaming) : Target → Target
  | .named m name => .named (π .module m) name
  | .viewed view localName => .viewed (view.rename π) localName

def Demand.rename (π : Renaming) : Demand → Demand
  | .read how target => .read how (target.rename π)
  | .forward m source pairs => .forward (π .module m) (π .module source) pairs
  | .finish m => .finish (π .module m)
  | .wildcards m => .wildcards (π .module m)

/-- A list of names with values for them, with other identities for the functions in the values. -/
def renameEntries (π : Renaming) (entries : List (String × Value)) : List (String × Value) :=
  entries.map fun entry => (entry.1, π • entry.2)

namespace Action

def rename (π : Renaming) : Action → Action
  | .create names config => .create names config
  | .observe m => .observe (π .module m)
  | .configuration m => .configuration (π .module m)
  | .settle m name value => .settle (π .module m) name (π • value)
  | .merge m source => .merge (π .module m) (π .module source)
  | .prepare id names => .prepare id names
  | .lookup id => .lookup id
  | .registered id => .registered id
  | .identifiers => .identifiers
  | .registrySize => .registrySize
  | .registryIsEmpty => .registryIsEmpty
  | .note label values => .note label (values.map (π • ·))

/-- The reply to an action, from the reply to the renamed action. -/
def recover (π : Renaming) : (action : Action) → (action.rename π).Reply → action.Reply
  | .create .., m => (π .module).symm m
  | .observe _, seen => seen.rename π⁻¹
  | .configuration _, config => config
  | .settle .., result => result
  | .merge .., done => done
  | .prepare .., m => (π .module).symm m
  | .lookup _, found => found.map (π .module).symm
  | .registered _, answer => answer
  | .identifiers, ids => ids
  | .registrySize, size => size
  | .registryIsEmpty, answer => answer
  | .note .., done => done

end Action

def Ending.rename (π : Renaming) : Ending → Ending
  | .afterStatements count => .afterStatements count
  | .told verdict => .told fun position value => verdict position (π⁻¹ • value)

def After.rename (π : Renaming) : After → After
  | .goOn demand => .goOn (demand.rename π)
  | .answer outcome => .answer (π • outcome)

section Code

variable [MulAction Renaming σ] (π : Renaming)

/-- The program that works on what another one works on under other numbers. What it is told it takes for
what the other one would be told. -/
def Program.rename : Program σ → Program σ
  | .done outcome => .done (π • outcome)
  | .host change next =>
    .host (fun state => π • change (π⁻¹ • state)) fun state => (next (π⁻¹ • state)).rename
  | .act action next => .act (action.rename π) fun reply => (next (action.recover π reply)).rename
  | .demand asked next => .demand (asked.rename π) fun outcome => (next (π⁻¹ • outcome)).rename
  | .commit m entries next =>
    .commit (π .module m) (renameEntries π entries) fun outcome => (next (π⁻¹ • outcome)).rename
  | .execute m factory code ending next =>
    .execute (π .module m) factory.rename
      (fun position n => (code position ((π .module).symm n)).rename) (ending.rename π)
      fun outcome => (next (π⁻¹ • outcome)).rename
  | .importer m hook next =>
    .importer (π .module m) (fun n => (hook ((π .module).symm n)).rename)
      fun outcome => (next (π⁻¹ • outcome)).rename
  | .function name code next =>
    .function name (fun arguments => (code (arguments.map (π⁻¹ • ·))).rename)
      fun value => (next (π⁻¹ • value)).rename
  | .call callee arguments next =>
    .call (π • callee) (arguments.map (π • ·)) fun outcome => (next (π⁻¹ • outcome)).rename
  | .detach code ending next =>
    .detach (fun position n => (code position ((π .module).symm n)).rename) (ending.rename π)
      fun body => (next ((π .body).symm body)).rename
  | .resume body m next =>
    .resume (π .body body) (π .module m) fun outcome => (next (π⁻¹ • outcome)).rename
  | .remaining body next => .remaining (π .body body) fun left => (next left).rename

/-- What follows an outcome, told of the renamed outcome. -/
def renameNext (next : Outcome → Program σ) (outcome : Outcome) : Program σ :=
  (next (π⁻¹ • outcome)).rename π

def renameFunction (code : List Value → Program σ) (arguments : List Value) : Program σ :=
  (code (arguments.map (π⁻¹ • ·))).rename π

/-- What is done on behalf of a module, with the module under its other number. -/
def renameFor (code : ModuleId → Program σ) (m : ModuleId) : Program σ :=
  (code ((π .module).symm m)).rename π

def Body.rename (body : Body σ) : Body σ where
  position := body.position
  code position := renameFor π (body.code position)
  ending := body.ending.rename π

def Hook.rename (hook : Hook σ) : Hook σ := { hook with code := renameFor π hook.code }

def Slot.rename (slot : Slot σ) : Slot σ := { slot with body := slot.body.map (Body.rename π) }

def Readiness.rename : Readiness σ → Readiness σ
  | .ready body => .ready (body.rename π)
  | .idle => .idle
  | .exhausted => .exhausted
  | .failed cause => .failed cause

def Module.rename (module : Module σ) : Module σ :=
  { module with
    bindings := module.bindings.map (π • ·)
    slot := module.slot.rename π
    hooks := module.hooks.map (List.map (Hook.rename π)) }

def Frame.rename : Frame σ → Frame σ
  | .caller next => .caller (renameNext π next)
  | .stepping m verdict demand =>
    .stepping (π .module m) (fun value => verdict (π⁻¹ • value)) (demand.rename π)
  | .building m body => .building (π .module m) (body.rename π)
  | .hooks m rest after => .hooks (π .module m) (rest.map (Hook.rename π)) (after.rename π)

def Control.rename : Control σ → Control σ
  | .run program => .run (program.rename π)
  | .demand asked => .demand (asked.rename π)

end Code

section One

variable [MulAction Renaming σ]

theorem Observation.rename_one (seen : Observation) : seen.rename 1 = seen := by
  simp only [rename, one_smul, Table.map_id]

theorem Demand.rename_one (demand : Demand) : demand.rename 1 = demand := by
  cases demand with
  | read how target => cases target <;> rfl
  | _ => rfl

theorem After.rename_one (after : After) : after.rename 1 = after := by
  cases after with
  | goOn demand => exact congrArg goOn demand.rename_one
  | answer outcome => exact congrArg answer (one_smul Renaming outcome)

theorem Ending.rename_one (ending : Ending) : ending.rename 1 = ending := by
  cases ending with
  | afterStatements count => rfl
  | told verdict => simp only [rename, inv_one, one_smul]

theorem renameEntries_one (entries : List (String × Value)) : renameEntries 1 entries = entries := by
  simp only [renameEntries, one_smul, List.map_id']

theorem smul_values_one (values : List Value) : values.map ((1 : Renaming) • ·) = values := by
  simp only [one_smul, List.map_id']

@[simp]
theorem Program.rename_one (program : Program σ) : program.rename 1 = program := by
  induction program with
  | done outcome => exact congrArg done (one_smul Renaming outcome)
  | host change next ih => simp only [rename, inv_one, one_smul, ih]
  | act action next ih =>
    cases action with
    | observe m =>
      refine congrArg (act (.observe m)) (funext fun seen => (ih _).trans (congrArg next ?_))
      exact Observation.rename_one seen
    | settle m name value =>
      have same := one_smul Renaming value
      refine (congrArg (fun value => act (.settle m name value) _) same).trans ?_
      exact congrArg (act (.settle m name value)) (funext ih)
    | lookup id =>
      refine congrArg (act (.lookup id)) (funext fun found => (ih _).trans (congrArg next ?_))
      cases found <;> rfl
    | note label values =>
      have same := smul_values_one values
      refine (congrArg (fun values => act (.note label values) _) same).trans ?_
      exact congrArg (act (.note label values)) (funext ih)
    | _ => exact congrArg (act _) (funext ih)
  | demand asked next ih => simp only [rename, inv_one, one_smul, ih, Demand.rename_one]
  | commit m entries next ih =>
    simp only [rename, inv_one, one_smul, ih, renameEntries_one]
    rfl
  | execute m factory code ending next factory_ih code_ih ih =>
    simp only [rename, inv_one, one_smul, ih, factory_ih, code_ih, Ending.rename_one]
    rfl
  | importer m hook next hook_ih ih =>
    simp only [rename, inv_one, one_smul, ih, hook_ih]
    rfl
  | function name code next code_ih ih =>
    simp only [rename, inv_one, one_smul, ih, code_ih, List.map_id']
  | call callee arguments next ih =>
    simp only [rename, inv_one, one_smul, ih, List.map_id']
  | detach code ending next code_ih ih =>
    simp only [rename, ih, code_ih, Ending.rename_one]
    rfl
  | resume body m next ih =>
    simp only [rename, inv_one, one_smul, ih]
    rfl
  | remaining body next ih =>
    simp only [rename, ih]
    rfl

theorem renameNext_one (next : Outcome → Program σ) : renameNext 1 next = next := by
  funext outcome
  simp only [renameNext, Program.rename_one, inv_one, one_smul]

@[simp]
theorem renameFunction_one : (renameFunction 1 : (List Value → Program σ) → _) = id := by
  funext code arguments
  simp only [renameFunction, Program.rename_one, inv_one, one_smul, List.map_id', id]

theorem renameFor_one (code : ModuleId → Program σ) : renameFor 1 code = code :=
  funext fun m => Program.rename_one (code m)

@[simp]
theorem Body.rename_one : (Body.rename 1 : Body σ → Body σ) = id := by
  funext body
  simp only [rename, renameFor_one, Ending.rename_one, id]

@[simp]
theorem Hook.rename_one : (Hook.rename 1 : Hook σ → Hook σ) = id := by
  funext hook
  simp only [rename, renameFor_one, id]

@[simp]
theorem Module.rename_one (module : Module σ) : module.rename 1 = module := by
  have bindings : module.bindings.map ((1 : Renaming) • ·) = module.bindings := by
    simp only [one_smul, Table.map_id]
  simp only [rename, Slot.rename, bindings, Body.rename_one, Hook.rename_one, Option.map_id_fun,
    List.map_id_fun, id]

@[simp]
theorem Frame.rename_one : (Frame.rename 1 : Frame σ → Frame σ) = id := by
  funext frame
  cases frame with
  | caller next => exact congrArg caller (renameNext_one next)
  | stepping m verdict demand =>
    simp only [rename, inv_one, one_smul, Demand.rename_one]
    rfl
  | building m body =>
    simp only [rename, Body.rename_one]
    rfl
  | hooks m rest after =>
    simp only [rename, Hook.rename_one, List.map_id_fun, After.rename_one]
    rfl

@[simp]
theorem Control.rename_one (control : Control σ) : control.rename 1 = control := by
  cases control with
  | run program => exact congrArg run program.rename_one
  | demand asked => exact congrArg demand asked.rename_one

end One

section Commuting

variable (π : Renaming)

@[simp]
theorem Target.remote_rename (target : Target) : (target.rename π).remote = target.remote := by
  cases target <;> rfl

@[simp]
theorem Target.source_rename (target : Target) :
    (target.rename π).source = π .module target.source := by
  cases target <;> rfl

theorem Observation.rename_inv_rename (seen : Observation) : (seen.rename π).rename π⁻¹ = seen := by
  simp only [rename, Table.map_map, inv_smul_smul, Table.map_id]

theorem map_fst_renameEntries (entries : List (String × Value)) :
    (renameEntries π entries).map Prod.fst = entries.map Prod.fst := by
  simp [renameEntries, Function.comp_def]

variable [MulAction Renaming σ]

theorem Program.rename_demand_done (asked : Demand) :
    (demand asked .done : Program σ).rename π = .demand (asked.rename π) .done := by
  simp only [rename, smul_inv_smul]

@[simp]
theorem renameNext_smul (next : Outcome → Program σ) (outcome : Outcome) :
    renameNext π next (π • outcome) = (next outcome).rename π := by
  rw [renameNext, inv_smul_smul]

theorem renameNext_comp {f f' : Outcome → Outcome} (next : Outcome → Program σ)
    (same : ∀ outcome, f (π⁻¹ • outcome) = π⁻¹ • f' outcome) :
    renameNext π (next ∘ f) = renameNext π next ∘ f' := by
  funext outcome
  simp only [renameNext, Function.comp_apply, same]

@[simp]
theorem renameFor_apply (code : ModuleId → Program σ) (m : ModuleId) :
    renameFor π code (π .module m) = (code m).rename π := by
  rw [renameFor, Equiv.symm_apply_apply]

@[simp]
theorem renameFunction_map (code : List Value → Program σ) (arguments : List Value) :
    renameFunction π code (arguments.map (π • ·)) = (code arguments).rename π := by
  simp only [renameFunction, List.map_map, Function.comp_def, inv_smul_smul, List.map_id']

theorem callResult_smul (outcome : Outcome) :
    Machine.callResult (π • outcome) = π • Machine.callResult outcome := by
  cases outcome <;> rfl

namespace Body

variable (body : Body σ)

@[simp]
theorem next_rename (m : ModuleId) :
    (body.rename π).next (π .module m) = (body.next m).rename π :=
  renameFor_apply π (body.code body.position) m

theorem verdict_rename :
    (body.rename π).verdict = fun value => body.verdict (π⁻¹ • value) := by
  obtain ⟨position, code, ending⟩ := body
  cases ending <;> rfl

theorem reportOf_smul (outcome : Outcome) : Machine.reportOf body.verdict (π⁻¹ • outcome) =
    π⁻¹ • Machine.reportOf (body.rename π).verdict outcome := by
  rw [verdict_rename]
  cases outcome <;> rfl

@[simp]
theorem remaining_rename : (body.rename π).remaining = body.remaining := by
  obtain ⟨position, code, ending⟩ := body
  cases ending <;> rfl

end Body

@[simp]
theorem Slot.readiness_rename (slot : Slot σ) :
    (slot.rename π).readiness = slot.readiness.rename π := by
  obtain ⟨body, state, failure⟩ := slot
  cases failure with
  | some cause => rfl
  | none =>
    cases body with
    | none => cases state <;> rfl
    | some body => cases state <;> rfl

namespace Module

variable (module : Module σ)

theorem rename_absent : (absent : Module σ).rename π = absent := rfl

theorem rename_bind (name : String) (value : Value) :
    (module.bind name value).rename π = (module.rename π).bind name (π • value) := by
  simp only [rename, bind, Table.map_insert]

theorem rename_define (name : String) (value : Option Value) :
    (module.define name value).rename π = (module.rename π).define name (value.map (π • ·)) := by
  cases value with
  | none => rfl
  | some value => exact rename_bind π { module with declared := module.declared.add name } name value

theorem rename_defineAll (entries : List (String × Value)) :
    (module.defineAll entries).rename π = (module.rename π).defineAll (renameEntries π entries) := by
  unfold defineAll renameEntries
  induction entries generalizing module with
  | nil => rfl
  | cons entry rest ih =>
    rw [List.foldl_cons, List.map_cons, List.foldl_cons, ih, rename_define]
    rfl

@[simp]
theorem isLoaded_rename : (module.rename π).isLoaded = module.isLoaded := Option.isNone_map

theorem observation_rename : (module.rename π).observation = module.observation.rename π := by
  rw [observation, isLoaded_rename]
  rfl

@[simp]
theorem peek_rename (name : String) : (module.rename π).peek name = (module.peek name).map (π • ·) :=
  Table.find?_map (π • ·) module.bindings name

@[simp]
theorem lacks_rename (name : String) : (module.rename π).lacks name = module.lacks name := by
  simp only [lacks, peek_rename, Option.isNone_map]
  rfl

theorem unsettled_rename (name : String) :
    (module.rename π).unsettled name = (module.unsettled name).map (π • ·) := by
  have same : (module.rename π).unsettled name = module.unsettled name := rfl
  rw [same, unsettled]
  split <;> rfl

@[simp]
theorem firstUndeclared?_rename (entries : List (String × Value)) :
    (module.rename π).firstUndeclared? (renameEntries π entries) = module.firstUndeclared? entries := by
  rw [firstUndeclared?, map_fst_renameEntries]
  rfl

end Module

end Commuting

end LiveBindings
