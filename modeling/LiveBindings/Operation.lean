import LiveBindings.Code

namespace LiveBindings

namespace Code

variable {σ : Type}

/-- Ends without a result. -/
def unit : Code σ Value := ret .undefined

def create (names : List ExportName) (config : Config) : Code σ ModuleId :=
  act (.create names config)

def observe (m : ModuleId) : Code σ Observation := act (.observe m)

def configuration (m : ModuleId) : Code σ Config := act (.configuration m)

/-- Gives the module of an identifier, and makes it if there is none. -/
def prepare (id : String) (names : List ExportName) : Code σ ModuleId := act (.prepare id names)

/-- Gives the module of an identifier, if there is one. -/
def lookup (id : String) : Code σ (Option ModuleId) := act (.lookup id)

/-- Tells whether there is a module of an identifier. -/
def isRegistered (id : String) : Code σ Bool := act (.registered id)

def identifiers : Code σ (List String) := act .identifiers

/-- Tells how many identifiers have a module. -/
def registrySize : Code σ Nat := act .registrySize

def registryIsEmpty : Code σ Bool := act .registryIsEmpty

def note (label : String) (values : List Value) : Code σ Value := do
  act (.note label values)
  unit

def settle (m : ModuleId) (name : String) (value : Value) : Code σ Value := do
  match ← act (.settle m name value) with
  | .ok _ => unit
  | .error fault => fail fault

/-- Takes all settled names of another module, except for the default slot. -/
def merge (m source : ModuleId) : Code σ Value := do
  act (.merge m source)
  unit

/-- Reads a name of a module or of a view. -/
def read (how : Reading) (target : Target) : Code σ Value := demand (.read how target)

/-- Reads a name of a module, failing with any fault of the read. -/
def resolve (m : ModuleId) (name : String) : Code σ Value := read .resolve (.named m name)

def get (m : ModuleId) (name : String) : Code σ Value := read .get (.named m name)

def forward (m source : ModuleId) (pairs : List (String × String)) : Code σ Value :=
  demand (.forward m source pairs)

def finish (m : ModuleId) : Code σ Value := demand (.finish m)

/-- Settles several names of a module, or none. -/
def commit (m : ModuleId) (entries : List (String × Value)) : Code σ Value := fun next =>
  .commit m entries next

/-- The code of a body that runs the listed pieces one after another. -/
def bodyOf (pieces : List (ModuleId → Code σ Value)) : Nat → ModuleId → Program σ :=
  Program.statements (pieces.map fun piece m => (piece m).program)

/-- Attaches a body to a module, once the factory has run, and runs it until a merge was made for
every declared wildcard. -/
def execute (m : ModuleId) (factory : Code σ Value) (pieces : List (ModuleId → Code σ Value))
    (ending : Ending) : Code σ Value := fun next =>
  .execute m factory.program (bodyOf pieces) ending next

def executeStatements (m : ModuleId) (factory : Code σ Value)
    (statements : List (ModuleId → Code σ Value)) : Code σ Value :=
  execute m factory statements (.afterStatements statements.length)

/-- Runs a hook once a module has loaded, at once if it has. -/
def importer (m : ModuleId) (hook : ModuleId → Code σ Value) : Code σ Value := fun next =>
  .importer m (fun loaded => (hook loaded).program) next

def function (name : String) (result : List Value → Code σ Value) : Code σ Value := fun next =>
  .function name (fun arguments => (result arguments).program) fun value => next (.returned value)

def call (callee : Value) (arguments : List Value) : Code σ Value := fun next =>
  .call callee arguments next

/-- Makes a body of statements that belongs to no module. -/
def detach (statements : List (ModuleId → Code σ Value)) : Code σ BodyId := fun next =>
  .detach (bodyOf statements) (.afterStatements statements.length) fun id => next (.returned id)

/-- Resumes a body that belongs to no module, and gives what it reports. -/
def resume (body : BodyId) (m : ModuleId) : Code σ Value := fun next => .resume body m next

/-- How many statements a body that belongs to no module has left. -/
def remaining (body : BodyId) : Code σ Nat := fun next =>
  .remaining body fun left => next (.returned left)

end Code

end LiveBindings
