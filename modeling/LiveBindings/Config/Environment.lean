import LiveBindings.Config.Basic

namespace LiveBindings

/-- What an environment variable holds. -/
inductive Setting
  /-- The variable is not set. -/
  | unset
  | unreadable
  | text (value : String)
  deriving DecidableEq, Inhabited

namespace Setting

/-- What a variable that was set to some bytes holds. -/
def ofBytes (bytes : ByteArray) : Setting :=
  (String.fromUTF8? bytes).elim .unreadable .text

def text? : Setting → Option String
  | .text value => some value
  | _ => none

end Setting

/-- The variables of an environment, by their names. -/
abbrev Environment := String → Setting

def policyVariable : String := "EXIMPORT_UNRESOLVED"

def labelVariable : String := "EXIMPORT_LABEL"

namespace Config

/-- The policy that an environment leaves in place of `base`. -/
def mergedPolicy (base : Policy) (environment : Environment) : Except Fault Policy :=
  match (environment policyVariable).text? with
  | some text => Policy.ofText text
  | none => .ok base

/-- The label that an environment leaves in place of `base`: an empty one changes nothing. -/
def mergedLabel (base : Option String) (environment : Environment) : Option String :=
  match (environment labelVariable).text? with
  | some text => if text = "" then base else some text
  | none => base

/-- The configuration with an environment's overrides. The policy is read first, so a word that
names none is the only fault. -/
def merge (base : Config) (environment : Environment) : Except Fault Config :=
  match mergedPolicy base.policy environment with
  | .ok policy => .ok ⟨mergedLabel base.label environment, policy⟩
  | .error fault => .error fault

def ofEnvironment (environment : Environment) : Except Fault Config := standard.merge environment

end Config

end LiveBindings
