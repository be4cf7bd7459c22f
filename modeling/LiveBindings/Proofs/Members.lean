import LiveBindings.Config.Document
import LiveBindings.Proofs.Parsing
import Mathlib.Data.List.Perm.Basic

namespace LiveBindings

namespace Config

/-- Whether members of a name matter: those of the two known names, and those of a name that is no text,
which are refused. -/
def counts : Quoted → Bool
  | some name => name == labelKey || name == policyKey
  | none => true

/-- The values of the members of a name. -/
def held (key : String) (members : List (Quoted × Json Quoted)) : List (Json Quoted) :=
  (members.filter fun member => member.1 == some key).map Prod.snd

section

variable {α : Type} {read : Json Quoted → Option α} {known : Option α}

end

namespace Draft

end Draft

/-- The members that a configuration is written with. -/
def members (config : Config) : List (Quoted × Json Quoted) :=
  [(some labelKey, config.label.elim .null (.string ∘ some)),
    (some policyKey, .string (some config.policy.keyword))]

end Config

end LiveBindings
