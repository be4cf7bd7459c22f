import LiveBindings.Config.Environment
import LiveBindings.Program

namespace LiveBindings

def version : String := "0.1.0"

/-- The fixed names, each with the name that it goes by. -/
def constants : List (String × String) :=
  [("VERSION", version), ("DEFAULT_EXPORT", defaultExport), ("ANONYMOUS_LABEL", anonymousLabel),
    ("ENV_UNRESOLVED", policyVariable), ("ENV_LABEL", labelVariable)]

end LiveBindings
