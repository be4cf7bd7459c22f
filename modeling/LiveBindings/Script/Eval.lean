import LiveBindings.Observation
import LiveBindings.Operation
import LiveBindings.Script.Expr

namespace LiveBindings

namespace Script

/-- What a script keeps under names. -/
structure Names where
  modules : Table ModuleId
  views : Table View
  values : Table Value
  bodies : Table BodyId

def Names.none : Names := ⟨Table.empty, Table.empty, Table.empty, Table.empty⟩

/-- What the code around an expression was given. -/
structure Scope where
  self : Option ModuleId
  surface : Option ModuleId
  arguments : List Value

namespace Scope

def top : Scope := ⟨none, none, []⟩

def body (m : ModuleId) : Scope := ⟨some m, none, []⟩

def hook (m : ModuleId) : Scope := ⟨none, some m, []⟩

def call (arguments : List Value) : Scope := ⟨none, none, arguments⟩

end Scope

/-- The code of a script. -/
abbrev Meaning (α : Type) := Code Names α

/-- What a script keeps under a name; a name that it does not know is a mistake in the script. -/
def known {α : Type} (table : Names → Table α) (name : String) : Meaning α := do
  match (table (← Code.host)).find? name with
  | some kept => Code.ret kept
  | none => Code.panic ("nothing is named '" ++ name ++ "'")

def keepModule (name : String) (m : ModuleId) : Meaning Unit :=
  Code.change fun names => { names with modules := names.modules.insert name m }

def moduleOf (scope : Scope) : Ref → Meaning ModuleId
  | .self => scope.self.elim (Code.panic "no body is running") Code.ret
  | .surface => scope.surface.elim (Code.panic "no hook is running") Code.ret
  | .handle name => known Names.modules name

def noteFault (label : String) (fault : Fault) : Meaning Value :=
  Code.note label [.string fault.kind, .string fault.message]

/-- Does computations one after another, up to the first fault, of which a note is left. -/
def noting (label : String) (codes : List (Meaning Value)) : Meaning Value :=
  (Code.last codes).handle (noteFault label)

/-- An array with what is there, or an empty one. -/
def optional (value : Option Value) : Value := .array value.toList

def numberOf (value : Value) : Number := value.asNumber?.getD .nan

namespace Unary

def apply : Unary → Value → Value
  | .text, v => .string v.text
  | .typeName, v => .string v.typeName
  | .isUndefined, v => .boolean v.isUndefined
  | .isNullish, v => .boolean v.isNullish
  | .isFunction, v => .boolean v.isFunction
  | .asNumber, v => optional (v.asNumber?.map .number)
  | .asString, v => optional (v.asString?.map .string)
  | .structureText, v => .string v.structureText

end Unary

namespace Binary

def apply : Binary → Value → Value → Value
  | .equal, a, b => .boolean (a.equal b)
  | .add, a, b => .number ((numberOf a).add (numberOf b))
  | .sub, a, b => .number ((numberOf a).sub (numberOf b))

end Binary

namespace Query

def answer (m : ModuleId) (query : Query) : Meaning Value := do
  let seen ← Code.observe m
  match query with
  | .config => do
    let config ← Code.configuration m
    return .record [("label", toValue config.label), ("unresolved", .string config.policy.name)]
  | .label => return .string seen.label
  | .state => return .string seen.state.name
  | .steps => return .ofNat seen.steps
  | .merges => return .ofNat seen.merges
  | .loaded => return .boolean seen.loaded
  | .structureText => return .string seen.structureText
  | .names => return toValue seen.declared.keys
  | .bindings => return .ofFields seen.bindings
  | .wildcards => return .array [.ofNat seen.wildcards, .ofNat seen.merges, .ofNat seen.pending]
  | .surfaceText => return .string seen.surfaceText

end Query

namespace NameQuery

def answer (m : ModuleId) (name : String) (query : NameQuery) : Meaning Value := do
  let seen ← Code.observe m
  match query with
  | .peek => return optional (seen.bindings.find? name)
  | .settled => return .boolean (seen.bindings.contains name)
  | .declared => return .boolean (seen.declared.contains name)

end NameQuery

/-- Tells how a computation ended, if not with a panic. -/
def attempted (code : Meaning Value) : Meaning Value := do
  match ← code.outcome with
  | .returned value => return .record [("ok", value)]
  | .failed fault => return .record [("error", .string fault.kind),
      ("message", .string fault.message), ("contract", .boolean fault.isContractViolation)]
  | .panicked message => Code.panic message

/-- Tells how a computation ended, if not with a fault. -/
def shielded (code : Meaning Value) : Meaning Value := do
  match ← code.outcome with
  | .returned value => return .record [("ok", value)]
  | .failed fault => Code.fail fault
  | .panicked message => return .record [("panic", .string message)]

/-- Makes a function that evaluates an expression. Of a fault it leaves a note. -/
def makeFunction (name : String) (result : Scope → Meaning Value) : Meaning Value :=
  Code.function name fun arguments => (result (.call arguments)).handle (noteFault "fn-error")

/-- The pieces of a body, each on behalf of a module. -/
def bodyPieces (pieces : List (Scope → Meaning Value)) : List (ModuleId → Meaning Value) :=
  pieces.map fun piece m => piece (.body m)

def register (m : ModuleId) (hook : List (Scope → Meaning Value)) : Meaning Value :=
  Code.importer m fun loaded => noting "hook-error" (hook.map (· (.hook loaded)))

/-- When a body ends whose resumptions report as listed. After the last one it has ended. -/
def reports (steps : List Step) : Ending := .told fun position _ => steps.getD position .complete

/-- What the evaluation of an expression says that is cut short. -/
def truncatedText (start count : Nat) : String :=
  "range start index " ++ toString start ++ " out of range for slice of length " ++ toString count

/-- Keeps the module of an identifier, if there is one, and tells whether there is. -/
def lookupModule (handle id : String) : Meaning Value := do
  match ← Code.lookup id with
  | some m => do
    keepModule handle m
    return .boolean true
  | none => return .boolean false

mutual

def meaning : Expr → Scope → Meaning Value
  | .literal value => fun _ => Code.ret value
  | .array items => fun scope => do
    return .array (← Code.all ((meanings items).map (· scope)))
  | .object fields => fun scope => do
    let values ← Code.all ((fieldMeanings fields).map fun field => field.2 scope)
    return .record ((fields.map Prod.fst).zip values)
  | .function name result => fun _ => makeFunction name (meaning result)
  | .argument index => fun scope => Code.ret (scope.arguments.getD index .undefined)
  | .arguments => fun scope => Code.ret (.array scope.arguments)
  | .call callee arguments => fun scope => do
    let callee ← meaning callee scope
    let values ← Code.all ((meanings arguments).map (· scope))
    Code.call callee values
  | .unary op operand => fun scope => do return op.apply (← meaning operand scope)
  | .binary op left right => fun scope => do
    let a ← meaning left scope
    let b ← meaning right scope
    return op.apply a b
  | .assign name value => fun scope => do
    let value ← meaning value scope
    Code.change fun names => { names with values := names.values.insert name value }
    Code.unit
  | .fetch name => fun _ => do return ((← Code.host).values.find? name).getD .undefined
  | .sequence items => fun scope => Code.last ((meanings items).map (· scope))
  | .branch condition first second => fun scope => do
    match ← meaning condition scope with
    | .boolean true => meaning first scope
    | _ => meaning second scope
  | .times count items => fun scope =>
    Code.times count (Code.last ((meanings items).map (· scope)))
  | .emit tag value => fun scope => do
    let value ← meaning value scope
    Code.note "emit" [.string tag, value]
  | .attempt body => fun scope => attempted (meaning body scope)
  | .shield body => fun scope => shielded (meaning body scope)
  | .raise fault => fun _ => Code.fail fault
  | .create handle names config => fun _ => do
    keepModule handle (← Code.create names config)
    Code.unit
  | .keep handle m => fun scope => do
    keepModule handle (← moduleOf scope m)
    Code.unit
  | .forget handle => fun _ => do
    Code.change fun names => { names with modules := names.modules.erase handle }
    Code.unit
  | .same left right => fun scope => do
    let a ← moduleOf scope left
    let b ← moduleOf scope right
    return .array [.boolean (a == b), .boolean (a == b)]
  | .query query m => fun scope => do query.answer (← moduleOf scope m)
  | .nameQuery query m name => fun scope => do query.answer (← moduleOf scope m) name
  | .executeStatements m statements factory => fun scope => do
    Code.executeStatements (← moduleOf scope m)
      (noting "factory-error" ((meanings factory).map (· scope))) (bodyPieces (meanings statements))
  | .executeSteps m steps factory => fun scope => do
    Code.execute (← moduleOf scope m) (noting "factory-error" ((meanings factory).map (· scope)))
      (bodyPieces (stepMeanings steps)) (reports (steps.map Prod.fst))
  | .finish m => fun scope => do Code.finish (← moduleOf scope m)
  | .settle m name value => fun scope => do
    let value ← meaning value scope
    Code.settle (← moduleOf scope m) name value
  | .commit m entries => fun scope => do
    let values ← Code.all ((fieldMeanings entries).map fun field => field.2 scope)
    Code.commit (← moduleOf scope m) ((entries.map Prod.fst).zip values)
  | .importer m hook => fun scope => do register (← moduleOf scope m) (meanings hook)
  | .forward m source pairs => fun scope => do
    let m ← moduleOf scope m
    Code.forward m (← moduleOf scope source) pairs
  | .merge m source => fun scope => do
    let m ← moduleOf scope m
    Code.merge m (← moduleOf scope source)
  | .read how m name => fun scope => do
    Code.read how (.named (← moduleOf scope m) name)
  | .view handle m names => fun scope => do
    let view : View := ⟨← moduleOf scope m, .ofList names⟩
    Code.change fun kept => { kept with views := kept.views.insert handle view }
    Code.unit
  | .readView how view localName => fun _ => do
    Code.read how (.viewed (← known Names.views view) localName)
  | .remoteName view localName => fun _ => do
    return optional (((← known Names.views view).names.find? localName).map .string)
  | .localNames view => fun _ => do return toValue (← known Names.views view).names.keys
  | .isSource view m => fun scope => do
    let view ← known Names.views view
    return .boolean (view.source == (← moduleOf scope m))
  | .prepare handle id names => fun _ => do
    keepModule handle (← Code.prepare id names)
    Code.unit
  | .lookup handle id => fun _ => lookupModule handle id
  | .isRegistered id => fun _ => do
    return .boolean (← Code.isRegistered id)
  | .identifiers => fun _ => do
    return toValue (← Code.identifiers)
  | .registrySize => fun _ => do
    let size ← Code.registrySize
    return .array [.ofNat size, .boolean (← Code.registryIsEmpty)]
  | .detach handle statements => fun _ => do
    let id ← Code.detach (bodyPieces (meanings statements))
    Code.change fun names => { names with bodies := names.bodies.insert handle id }
    Code.unit
  | .resume handle m => fun scope => do
    let id ← known Names.bodies handle
    Code.resume id (← moduleOf scope m)
  | .remaining handle => fun _ => do
    return .ofNat (← Code.remaining (← known Names.bodies handle))
  | .bodyText handle => fun _ => do
    let left ← Code.remaining (← known Names.bodies handle)
    return .string (recordText "Statements" [("remaining", toString left)])
  | .truncated start count => fun _ => Code.panic (truncatedText start count)

def meanings : List Expr → List (Scope → Meaning Value)
  | [] => []
  | item :: rest => meaning item :: meanings rest

def fieldMeanings : List (String × Expr) → List (String × (Scope → Meaning Value))
  | [] => []
  | (name, item) :: rest => (name, meaning item) :: fieldMeanings rest

/-- The meanings of a body's resumptions, each a sequence of expressions. -/
def stepMeanings : List (Step × List Expr) → List (Scope → Meaning Value)
  | [] => []
  | (_, items) :: rest =>
    let codes := meanings items
    (fun scope => Code.last (codes.map (· scope))) :: stepMeanings rest

end

end Script

end LiveBindings
