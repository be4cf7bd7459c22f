import LiveBindings.Config.Basic
import LiveBindings.Event

namespace LiveBindings

/-- How a computation ends. -/
inductive Result (α : Type)
  | returned (value : α)
  | failed (fault : Fault)
  /-- With a panic, which ends all that waits for it up to whoever catches it. -/
  | panicked (message : String)
  deriving Inhabited

/-- How a program ends. -/
abbrev Outcome := Result Value

/-- What a resumed body reports: that it stopped and can be resumed again, or that it ended. -/
inductive Step
  | yield
  | complete
  deriving DecidableEq, Inhabited

namespace Step

def name : Step → String
  | .yield => "Yield"
  | .complete => "Complete"

end Step

/-- An entry of the list of exports that a module is made with. -/
inductive ExportName
  | named (name : String)
  /-- A mark for one merge of all names of another module. -/
  | wildcard
  deriving DecidableEq, Inhabited

def defaultExport : String := "default"

/-- What can be seen of a module, except for its configuration. -/
structure Observation where
  label : String
  state : State
  steps : Nat
  wildcards : Nat
  merges : Nat
  pending : Nat
  loaded : Bool
  /-- The names that may be written. -/
  declared : NameSet
  bindings : Table Value

/-- A consumer's local names for exports of one module. A view keeps no values: each read asks the
module. -/
structure View where
  source : ModuleId
  names : Table String

/-- The two ways of reading. -/
inductive Reading
  /-- A fault of the read is the reader's. -/
  | resolve
  /-- A fault of the read is a panic when it is a breach of contract, and undefined otherwise. -/
  | get
  deriving DecidableEq, Inhabited

/-- What is read. -/
inductive Target
  | named (module : ModuleId) (name : String)
  | viewed (view : View) (localName : String)

/-- An operation that is done at once. -/
inductive Action
  | create (names : List ExportName) (config : Config)
  | observe (module : ModuleId)
  | configuration (module : ModuleId)
  | settle (module : ModuleId) (name : String) (value : Value)
  /-- Takes all settled names of another module, except for the default slot. -/
  | merge (module source : ModuleId)
  /-- Gives the module of an identifier, and makes it if there is none. -/
  | prepare (id : String) (names : List ExportName)
  /-- Gives the module of an identifier, if there is one. -/
  | lookup (id : String)
  /-- Tells whether there is a module of an identifier. -/
  | registered (id : String)
  | identifiers
  /-- Tells how many identifiers have a module. -/
  | registrySize
  /-- Tells whether no identifier has a module. -/
  | registryIsEmpty
  | note (label : String) (values : List Value)

def Action.Reply : Action → Type
  | .create .. => ModuleId
  | .observe _ => Observation
  | .configuration _ => Config
  | .settle .. => Except Fault Unit
  | .merge .. => Unit
  | .prepare .. => ModuleId
  | .lookup _ => Option ModuleId
  | .registered _ => Bool
  | .identifiers => List String
  | .registrySize => Nat
  | .registryIsEmpty => Bool
  | .note .. => Unit

/-- An operation that may resume bodies before it is answered. -/
inductive Demand
  /-- Reads a name, resuming its module until the name is settled or no progress can be made. -/
  | read (how : Reading) (target : Target)
  /-- Takes names of `source` under local names of `module`, reading one after another. -/
  | forward (module source : ModuleId) (pairs : List (String × String))
  | finish (module : ModuleId)
  /-- Runs a module's body until a merge was made for every declared wildcard. -/
  | wildcards (module : ModuleId)

/-- The identity of a body that belongs to no module. -/
abbrev BodyId := Nat

/-- When a body ends. -/
inductive Ending
  /-- The body is a list of so many statements: each is followed by a stop, and the resumption after
  the last one ends the body. -/
  | afterStatements (count : Nat)
  /-- The body tells after each resumption, from its number and what it returned. -/
  | told (verdict : Nat → Value → Step)

namespace Ending

/-- What a body reports after the resumption of the given number, counted from zero. -/
def step : Ending → Nat → Value → Step
  | .afterStatements count, position, _ => if position < count then .yield else .complete
  | .told verdict, position, value => verdict position value

end Ending

/-- Code that works on modules, with a state of type `σ` of its own: a tree of operations with what
follows each of their answers. How a program ends is data, faults and panics included, so a program
can go on after any of them. -/
inductive Program (σ : Type) : Type
  | done (outcome : Outcome)
  /-- Changes the program's own state, and goes on with it. -/
  | host (change : σ → σ) (next : σ → Program σ)
  | act (action : Action) (next : action.Reply → Program σ)
  | demand (demand : Demand) (next : Outcome → Program σ)
  /-- Settles several names of a module, or none of them. -/
  | commit (module : ModuleId) (entries : List (String × Value)) (next : Outcome → Program σ)
  /-- Attaches a body to a module, once the factory has run, and then runs it until a merge was made
  for every declared wildcard. Resumption number `i` runs `code i`, which is told its module. -/
  | execute (module : ModuleId) (factory : Program σ) (code : Nat → ModuleId → Program σ)
      (ending : Ending) (next : Outcome → Program σ)
  /-- Runs a hook once the module has loaded, at once if it has. -/
  | importer (module : ModuleId) (hook : ModuleId → Program σ) (next : Outcome → Program σ)
  | function (name : String) (code : List Value → Program σ) (next : Value → Program σ)
  | call (callee : Value) (arguments : List Value) (next : Outcome → Program σ)
  | detach (code : Nat → ModuleId → Program σ) (ending : Ending) (next : BodyId → Program σ)
  /-- Resumes a body that belongs to no module, on behalf of a module. -/
  | resume (body : BodyId) (module : ModuleId) (next : Outcome → Program σ)
  /-- Asks how many statements a body that belongs to no module has left. -/
  | remaining (body : BodyId) (next : Nat → Program σ)

namespace Program

variable {σ : Type}

instance : Inhabited (Program σ) := ⟨.done (.returned .undefined)⟩

/-- The code of a body that is a list of statements. After the last one there is nothing to do. -/
def statements (list : List (ModuleId → Program σ)) (position : Nat) (module : ModuleId) :
    Program σ :=
  match list[position]? with
  | some statement => statement module
  | none => .done (.returned .undefined)

end Program

end LiveBindings
