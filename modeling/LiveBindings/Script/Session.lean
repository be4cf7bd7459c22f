import LiveBindings.Machine
import LiveBindings.Script.Eval

namespace LiveBindings

namespace Script

/-- A script's world between two expressions. -/
structure Session where
  world : World Names
  /-- How each module was last shown, by the name that it was shown under. -/
  shown : Table Observation

/-- What a session tells of one expression. -/
structure Entry where
  outcome : Outcome
  events : List Event
  /-- The modules that look different, by the names that the script keeps them under. -/
  changed : List (String × Observation)
  label : ModuleId → String

namespace Session

def start (template : Config) : Session := ⟨.empty template .none, Table.empty⟩

def visible (world : World Names) : List (String × Observation) :=
  world.host.modules.entries.map fun entry => (entry.1, (world.module entry.2).observation)

/-- Whether a module looks different from when it was last shown under a name. -/
def differs (shown : Table Observation) (entry : String × Observation) : Bool :=
  match shown.find? entry.1 with
  | some earlier => !earlier.alike entry.2
  | none => true

/-- Evaluates an expression, within a limit on the number of transitions. -/
def eval? (limit : Nat) (session : Session) (expr : Expr) : Option (Entry × Session) := do
  let (outcome, world) ← (Machine.start (meaning expr .top).program session.world).run? limit
  let added := world.journal.length - session.world.journal.length
  let changed := (visible world).filter (differs session.shown)
  return (⟨outcome, (world.journal.take added).reverse, changed, world.label⟩,
    ⟨world, session.shown.insertAll changed⟩)

/-- Evaluates expressions one after another, as far as the limit on each one allows. -/
def evalAll (limit : Nat) : Session → List Expr → List Entry
  | _, [] => []
  | session, expr :: rest =>
    match session.eval? limit expr with
    | some (entry, next) => entry :: evalAll limit next rest
    | none => []

end Session

end Script

end LiveBindings
