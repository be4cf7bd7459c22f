import LiveBindings.Fault
import LiveBindings.Value.Text

namespace LiveBindings

/-- The identity of a module in its world. -/
abbrev ModuleId := Nat

/-- The lifecycle of a module as it is seen from outside. -/
inductive State
  /-- No body was attached. -/
  | pending
  /-- The body waits to be resumed. -/
  | suspended
  /-- The body is mid-step, or is being made. -/
  | running
  /-- The body ended. -/
  | completed
  /-- A step of the body failed. -/
  | failed
  deriving DecidableEq, Inhabited

namespace State

def name : State → String
  | .pending => "Pending"
  | .suspended => "Suspended"
  | .running => "Running"
  | .completed => "Completed"
  | .failed => "Failed"

/-- Whether a module in this state will not go on. -/
def isFinal : State → Bool
  | .completed | .failed => true
  | _ => false

end State

/-- Something that happened. -/
inductive Event
  /-- A module is about to bind one of its names to a value. -/
  | settled (module : ModuleId) (name : String) (value : Value)
  /-- A module's body is resumed, for the given time. -/
  | resuming (module : ModuleId) (step : Nat)
  /-- A body was attached to a module that declares so many wildcards. -/
  | executing (module : ModuleId) (wildcards : Nat)
  /-- A module whose body is mid-step was asked to go on. -/
  | refused (module : ModuleId)
  /-- A module was asked to finish while its body is mid-step. -/
  | deferred (module : ModuleId)
  /-- A module's body ended after so many steps. -/
  | completed (module : ModuleId) (steps : Nat)
  /-- A module loaded with so many hooks queued. -/
  | hooksRun (module : ModuleId) (count : Nat)
  /-- A module took a name of another one under a local name, with its value if it was settled. -/
  | forwarded (module source : ModuleId) (localName remoteName : String) (value : Option Value)
  /-- A module took settled names of another one: which ones, for which time, of how many times
  declared. -/
  | merged (module source : ModuleId) (entries : List (String × Value)) (seen declared : Nat)
  /-- A module was made for an identifier. -/
  | prepared (id : String)
  /-- A lenient read of a module's name failed. -/
  | exportReadFailed (module : ModuleId) (name : String) (fault : Fault)
  /-- A lenient read through a view of a module failed. -/
  | importReadFailed (module : ModuleId) (localName : String) (fault : Fault)
  /-- A module's body failed. -/
  | bodyFailed (module : ModuleId) (cause : Fault)
  /-- Some names are about to be settled together, the module being in the given state. -/
  | committed (module : ModuleId) (during : State)
  /-- A hook was put into a module's queue. -/
  | hookQueued (module : ModuleId) (ticket : Nat)
  /-- A module's hook begins to run. -/
  | hookStarted (module : ModuleId) (ticket : Nat)
  /-- A program left a note of its own. -/
  | note (label : String) (values : List Value)
  deriving Inhabited

/-- The severity of a line of the log. -/
inductive Level
  | trace
  | debug
  | warn
  | error
  deriving DecidableEq, Inhabited

namespace Level

def name : Level → String
  | .trace => "TRACE"
  | .debug => "DEBUG"
  | .warn => "WARN"
  | .error => "ERROR"

end Level

/-- A line of the log: its severity, what it says, and named details. -/
structure LogLine where
  /-- The severity. -/
  level : Level
  /-- What the line says. -/
  message : String
  /-- The details: texts, whole numbers and truth values. -/
  details : List (String × Value)

namespace Event

/-- The line that an event leaves in the log, given the modules' labels; none for an event that is
not logged. -/
def logLine? (label : ModuleId → String) : Event → Option LogLine
  | .settled m name value => some ⟨.trace, "settled", [("module", .string (label m)),
      ("export", .string name), ("kind", .string value.typeName), ("value", .string value.text)]⟩
  | .resuming m step => some ⟨.trace, "Resuming module body",
      [("module", .string (label m)), ("step", .ofNat step)]⟩
  | .executing m wildcards => some ⟨.debug, "Executing module body",
      [("module", .string (label m)), ("wildcards", .ofNat wildcards)]⟩
  | .refused m => some ⟨.debug, "Refusing re-entrant advance", [("module", .string (label m))]⟩
  | .deferred m =>
    some ⟨.debug, "finish deferred: body is running", [("module", .string (label m))]⟩
  | .completed m steps => some ⟨.debug, "Module body completed",
      [("module", .string (label m)), ("steps", .ofNat steps)]⟩
  | .hooksRun m hooks => some ⟨.debug, "Running importer hooks",
      [("module", .string (label m)), ("count", .ofNat hooks)]⟩
  | .forwarded m source localName remoteName value => some ⟨.debug, "Named re-export",
      [("module", .string (label m)), ("from", .string (label source)),
        ("local", .string localName), ("remote", .string remoteName),
        ("settled", .boolean value.isSome)]⟩
  | .merged m source entries seen declared => some ⟨.debug, "Wildcard re-export",
      [("module", .string (label m)), ("from", .string (label source)),
        ("count", .ofNat entries.length), ("seen", .ofNat seen), ("declared", .ofNat declared)]⟩
  | .prepared id => some ⟨.debug, "Preparing bridge", [("module", .string id)]⟩
  | .exportReadFailed m name fault => some ⟨.warn, "export read failed: " ++ fault.message,
      [("module", .string (label m)), ("export", .string name)]⟩
  | .importReadFailed m name fault => some ⟨.warn, "import read failed: " ++ fault.message,
      [("module", .string (label m)), ("local", .string name)]⟩
  | .bodyFailed m cause =>
    some ⟨.error, "Module body failed: " ++ cause.message, [("module", .string (label m))]⟩
  | .committed .. | .hookQueued .. | .hookStarted .. | .note .. => none

end Event

end LiveBindings
