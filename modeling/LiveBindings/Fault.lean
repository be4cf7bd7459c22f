namespace LiveBindings

/-- Why an operation failed. -/
inductive Fault
  /-- A body was given to a module that has one already, or is being given one. -/
  | alreadyAttached (module : String)
  /-- A name was written that the module does not declare. -/
  | undeclaredExport (module name : String)
  /-- A module ended without settling the name that was asked for. -/
  | exportNotFound (module name : String)
  | unknownImport (name : String)
  | body (reason : String)
  /-- A module's body had failed with the given fault when the module was asked to go on. -/
  | failed (module : String) (cause : Fault)
  | fileSystem
  | jsonSyntax
  | configuration (reason : String)
  deriving DecidableEq, Inhabited

namespace Fault

def kind : Fault → String
  | .alreadyAttached _ => "AlreadyExecuted"
  | .undeclaredExport .. => "UndeclaredExport"
  | .exportNotFound .. => "ExportNotFound"
  | .unknownImport _ => "UnknownImport"
  | .body _ => "Body"
  | .failed .. => "Failed"
  | .fileSystem => "Io"
  | .jsonSyntax => "Json"
  | .configuration _ => "Config"

/-- What the fault says. The reasons that lie outside the library, of a file system or of a
document, are not spelled out: a star stands for them. -/
def message : Fault → String
  | .alreadyAttached module => "Module body already attached to '" ++ module ++ "'"
  | .undeclaredExport module name =>
    "'" ++ name ++ "' is not a declared export of '" ++ module ++ "'"
  | .exportNotFound module name => "Export '" ++ name ++ "' not found in '" ++ module ++ "'"
  | .unknownImport name => "No import binding named '" ++ name ++ "'"
  | .body reason => reason
  | .failed module cause => "Module '" ++ module ++ "' failed: " ++ cause.message
  | .fileSystem => "File system error: *"
  | .jsonSyntax => "JSON parse error: *"
  | .configuration reason => "Invalid configuration: " ++ reason

/-- Whether the fault shows that a module's code does not fit its declarations. A failed module's
fault is judged by its cause. -/
def isContractViolation : Fault → Bool
  | .alreadyAttached _ | .undeclaredExport .. => true
  | .failed _ cause => cause.isContractViolation
  | _ => false

def cause? : Fault → Option Fault
  | .failed _ cause => some cause
  | _ => none

/-- Whether something beneath the fault brought it about: another fault, or what lies outside the
library. -/
def hasSource : Fault → Bool
  | .failed .. | .fileSystem | .jsonSyntax => true
  | _ => false

end Fault

end LiveBindings
