import LiveBindings.Program

namespace LiveBindings

namespace Observation

/-- The structure of a module: what it is called and where it is in its life. -/
def structureText (seen : Observation) : String :=
  recordText "Bridge" [("label", quoted seen.label), ("state", seen.state.name),
    ("steps", toString seen.steps)]

/-- The structure of a module's export surface: its names, its wildcards and its values. -/
def surfaceText (seen : Observation) : String :=
  recordText "Namespace"
    [("declared", "\x7b" ++ separated ", " (seen.declared.keys.map quoted) ++ "\x7d"),
      ("wildcards", toString seen.wildcards), ("stars_seen", toString seen.merges),
      ("values", bracedFields (Value.fieldStructures seen.bindings.entries))]

/-- Whether two observations show the same of a module, apart from its label and the number of its
wildcards, which never change. -/
def alike (a b : Observation) : Bool :=
  a.state == b.state && a.steps == b.steps && a.merges == b.merges && a.pending == b.pending &&
    a.loaded == b.loaded && a.declared.keys == b.declared.keys &&
    (Value.ofFields a.bindings).alike (Value.ofFields b.bindings)

end Observation

end LiveBindings
