import LiveBindings.Program

namespace LiveBindings

variable {σ : Type}

/-- A body that can be resumed: which resumption comes next, what each one runs, and when the body
ends. -/
structure Body (σ : Type) where
  /-- How many resumptions have begun. -/
  position : Nat
  code : Nat → ModuleId → Program σ
  ending : Ending

namespace Body

/-- The body after its next resumption has begun. What that one does is used up at once, whether or
not it succeeds. -/
def advanced (body : Body σ) : Body σ := { body with position := body.position + 1 }

/-- The code of the next resumption, on behalf of a module. -/
def next (body : Body σ) (module : ModuleId) : Program σ := body.code body.position module

/-- What the body reports when its next resumption returns a value. -/
def verdict (body : Body σ) : Value → Step := body.ending.step body.position

def remaining (body : Body σ) : Nat :=
  match body.ending with
  | .afterStatements count => count - body.position
  | .told _ => 0

end Body

/-- A hook in a queue, with a number that tells it from the other hooks of its module. -/
structure Hook (σ : Type) where
  ticket : Nat
  /-- What the hook does, given the module that has loaded. -/
  code : ModuleId → Program σ

/-- What a module keeps of its body. -/
structure Slot (σ : Type) where
  body : Option (Body σ)
  state : State
  /-- Why the body failed. -/
  failure : Option Fault

/-- What a slot answers when its body is to be resumed. -/
inductive Readiness (σ : Type)
  | ready (body : Body σ)
  /-- There is no body yet. -/
  | idle
  /-- There is no body any more. -/
  | exhausted
  | failed (cause : Fault)

namespace Slot

/-- The slot of a module that was given no body. -/
def empty : Slot σ := ⟨none, .pending, none⟩

/-- Whether the body can be resumed. A slot without a body is taken for one whose body ended. -/
def readiness (slot : Slot σ) : Readiness σ :=
  match slot.failure with
  | some cause => .failed cause
  | none =>
    match slot.state with
    | .pending => .idle
    | .completed | .failed => .exhausted
    | .suspended | .running => slot.body.elim .exhausted .ready

end Slot

/-- A module: its export surface, and the body that its settled values come from. It is *held* while
its body is mid-step or being made, and nothing can start it again then. -/
structure Module (σ : Type) where
  config : Config
  /-- The names that may be written. -/
  declared : NameSet
  wildcards : Nat
  merges : Nat
  bindings : Table Value
  slot : Slot σ
  /-- Whether the body is mid-step or being made. -/
  held : Bool
  steps : Nat
  /-- The hooks that wait for the module to load; none once it has. -/
  hooks : Option (List (Hook σ))
  tickets : Nat

namespace Module

/-- The names that a list of exports declares; the default slot is always one of them. -/
def declaredBy : List ExportName → NameSet
  | [] => NameSet.add Table.empty defaultExport
  | .named name :: rest => (declaredBy rest).add name
  | .wildcard :: rest => declaredBy rest

def wildcardsOf (names : List ExportName) : Nat := names.count .wildcard

def fresh (names : List ExportName) (config : Config) : Module σ where
  config := config
  declared := declaredBy names
  wildcards := wildcardsOf names
  merges := 0
  bindings := Table.empty
  slot := .empty
  held := false
  steps := 0
  hooks := some []
  tickets := 0

/-- What stands for a module that was not made. It declares nothing, and it is held for ever, so
that nothing can start it. -/
def absent : Module σ := { fresh [] .standard with declared := Table.empty, held := true }

instance : Inhabited (Module σ) := ⟨absent⟩

def label (module : Module σ) : String := module.config.shownLabel

def state (module : Module σ) : State := if module.held then .running else module.slot.state

/-- How many declared wildcards no merge has answered. -/
def pendingWildcards (module : Module σ) : Nat := module.wildcards - module.merges

def isLoaded (module : Module σ) : Bool := module.hooks.isNone

def declares (module : Module σ) (name : String) : Bool := module.declared.contains name

def peek (module : Module σ) (name : String) : Option Value := module.bindings.find? name

/-- Whether running the body may still settle a name: it is declared, or a merge may bring it. -/
def awaits (module : Module σ) (name : String) : Bool :=
  module.declares name || 0 < module.pendingWildcards

/-- Whether a name is unsettled, and running the body may still settle it. -/
def lacks (module : Module σ) (name : String) : Bool :=
  (module.peek name).isNone && module.awaits name

def observation (module : Module σ) : Observation where
  label := module.label
  state := module.state
  steps := module.steps
  wildcards := module.wildcards
  merges := module.merges
  pending := module.pendingWildcards
  loaded := module.isLoaded
  declared := module.declared
  bindings := module.bindings

def bind (module : Module σ) (name : String) (value : Value) : Module σ :=
  { module with bindings := module.bindings.insert name value }

def bindAll (module : Module σ) (entries : List (String × Value)) : Module σ :=
  entries.foldl (fun module entry => module.bind entry.1 entry.2) module

/-- Declares a name on behalf of another module's export, and binds it to a value that is known. -/
def define (module : Module σ) (name : String) (value : Option Value) : Module σ :=
  let declaring := { module with declared := module.declared.add name }
  value.elim declaring (declaring.bind name)

def defineAll (module : Module σ) (entries : List (String × Value)) : Module σ :=
  entries.foldl (fun module entry => module.define entry.1 (some entry.2)) module

def countMerge (module : Module σ) : Module σ := { module with merges := module.merges + 1 }

/-- The first name of a list that may not be written. -/
def firstUndeclared? (module : Module σ) (entries : List (String × Value)) : Option String :=
  (entries.map Prod.fst).find? fun name => !module.declares name

/-- What reading an unsettled name yields when the body can bring it no further: undefined, or a
fault when the module is strict and will not go on. -/
def unsettled (module : Module σ) (name : String) : Except Fault Value :=
  if module.config.policy == .strict && module.state.isFinal then
    .error (.exportNotFound module.label name)
  else .ok .undefined

def hold (module : Module σ) : Module σ := { module with held := true }

def release (module : Module σ) : Module σ := { module with held := false }

def attach (module : Module σ) (body : Body σ) : Module σ :=
  { module.release with slot := { module.slot with body := some body, state := .suspended } }

/-- The module as the next resumption of its body begins. -/
def resumed (module : Module σ) (body : Body σ) : Module σ :=
  { module.hold with
    slot := { module.slot with body := some body.advanced }, steps := module.steps + 1 }

/-- The module after a step of its body that can be followed by another one. -/
def yield (module : Module σ) : Module σ :=
  { module.release with slot := { module.slot with state := .suspended } }

def complete (module : Module σ) : Module σ :=
  { module.release with slot := { module.slot with body := none, state := .completed } }

def fail (module : Module σ) (cause : Fault) : Module σ :=
  { module.release with slot := ⟨none, .failed, some cause⟩ }

def load (module : Module σ) : Module σ := { module with hooks := none }

/-- The module with one more hook registered, and with a queue that has it. -/
def register (module : Module σ) (queue : Option (List (Hook σ))) : Module σ :=
  { module with hooks := queue, tickets := module.tickets + 1 }

end Module

end LiveBindings
