import LiveBindings.Fault
import LiveBindings.Text.Blank

namespace LiveBindings

/-- What a read yields of a name that its module ended without settling. -/
inductive Policy
  | lenient
  | strict
  deriving DecidableEq, Inhabited

namespace Policy

def name : Policy → String
  | .lenient => "Undefined"
  | .strict => "Strict"

def keyword : Policy → String
  | .lenient => "undefined"
  | .strict => "strict"

/-- The policy that a word names, whatever the case of its ASCII letters and the blanks around
it. -/
def ofText (text : String) : Except Fault Policy :=
  let word := lowered (trimmed text)
  if word = "undefined" || word = "lenient" then .ok .lenient
  else if word = "strict" then .ok .strict
  else .error (.configuration ("unknown unresolved policy '" ++ word ++ "'"))

end Policy

/-- What the reports call a module that was given no label. -/
def anonymousLabel : String := "<anonymous>"

/-- A module's configuration. -/
structure Config where
  label : Option String
  policy : Policy
  deriving DecidableEq

namespace Config

def standard : Config := ⟨none, .lenient⟩

instance : Inhabited Config := ⟨standard⟩

def shownLabel (config : Config) : String := config.label.getD anonymousLabel

end Config

end LiveBindings
