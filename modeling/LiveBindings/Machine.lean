import LiveBindings.World

namespace LiveBindings

variable {σ : Type}

/-- What came of asking a module to go on by one step. -/
inductive Progress
  /-- One step was made. -/
  | stepped
  /-- The body is mid-step further down the stack, or is being made. -/
  | busy
  /-- There is no body yet. -/
  | idle
  /-- The body had ended. -/
  | exhausted
  | failed (fault : Fault)

/-- What the machine works on. -/
inductive Control (σ : Type)
  | run (program : Program σ)
  | demand (demand : Demand)

/-- The control that hands an outcome to what waits for it. -/
def Control.answer (outcome : Outcome) : Control σ := .run (.done outcome)

/-- The answer of an operation that succeeds without a result. -/
def Outcome.unit : Outcome := .returned .undefined

/-- What comes after the last of a list of hooks. -/
inductive After
  /-- The demand that made the module's last step goes on. -/
  | goOn (demand : Demand)
  | answer (outcome : Outcome)

/-- Something that waits for what is above it on the stack. -/
inductive Frame (σ : Type)
  | caller (next : Outcome → Program σ)
  /-- A module's step: what it reports when it returns, and the demand that it serves. -/
  | stepping (module : ModuleId) (verdict : Value → Step) (demand : Demand)
  | building (module : ModuleId) (body : Body σ)
  /-- A module's hook: the hooks after it, and what comes after the last one. -/
  | hooks (module : ModuleId) (rest : List (Hook σ)) (after : After)

/-- The state of a run. A module's body is resumed by pushing a frame that holds the module until
the step ends, so the stack is the list of all steps in progress, and asking a held module to go on
is refused instead of entering it again. -/
structure Machine (σ : Type) where
  control : Control σ
  /-- What waits, the innermost first. -/
  stack : List (Frame σ)
  world : World σ

namespace Target

/-- The module that is read. -/
def source : Target → ModuleId
  | .named m _ => m
  | .viewed view _ => view.source

/-- The name that is read of that module. A view answers for its own local names alone. -/
def remote : Target → Except Fault String
  | .named _ name => .ok name
  | .viewed view localName =>
    match view.names.find? localName with
    | some name => .ok name
    | none => .error (.unknownImport localName)

/-- What a lenient read that fails leaves in the journal. -/
def failure (target : Target) (fault : Fault) : Event :=
  match target with
  | .named m name => .exportReadFailed m name fault
  | .viewed view localName => .importReadFailed view.source localName fault

end Target

namespace Demand

/-- Answers a read. A lenient reader panics on a breach of contract and sees any other fault as
undefined. -/
def deliver (how : Reading) (target : Target) (world : World σ) :
    Except Fault Value → Control σ × World σ
  | .ok value => (.answer (.returned value), world)
  | .error fault =>
    match how with
    | .resolve => (.answer (.failed fault), world)
    | .get =>
      if fault.isContractViolation then (.answer (.panicked fault.message), world)
      else (.answer .unit, world.record target.source (target.failure fault))

/-- Answers a read of a name that the body can bring no further. -/
def giveUp (how : Reading) (target : Target) (world : World σ) : Control σ × World σ :=
  deliver how target world (target.remote.bind (world.module target.source).unsettled)

/-- Goes on with a demand, given what came of asking the module that it waits for. -/
def react (world : World σ) : Demand → Progress → Control σ × World σ
  | demand, .stepped => (.demand demand, world)
  | .read how target, .failed fault => deliver how target world (.error fault)
  | .read how target, _ => giveUp how target world
  | .forward .., .failed fault => (.answer (.failed fault), world)
  | .forward _ _ [], _ => (.answer .unit, world)
  | .forward m source ((localName, remoteName) :: rest), _ =>
    (.demand (.forward m source rest), world.forward m source localName remoteName none)
  | .finish _, .failed fault => (.answer (.failed fault), world)
  | .finish m, .busy => (.answer .unit, world.record m (.deferred m))
  | .finish _, _ => (.answer .unit, world)
  | .wildcards _, .failed fault => (.answer (.failed fault), world)
  | .wildcards _, _ => (.answer .unit, world)

/-- The module that has to go on before the demand can be answered, if there is one. -/
def awaited? (world : World σ) : Demand → Option ModuleId
  | .read _ target =>
    match target.remote with
    | .ok name => if (world.module target.source).lacks name then some target.source else none
    | .error _ => none
  | .forward _ _ [] => none
  | .forward _ source ((_, remoteName) :: _) =>
    if (world.module source).lacks remoteName then some source else none
  | .finish m => some m
  | .wildcards m => if 0 < (world.module m).pendingWildcards then some m else none

/-- Goes on with a demand that waits for no module. -/
def proceed (world : World σ) : Demand → Control σ × World σ
  | .read how target =>
    match target.remote with
    | .ok name =>
      match (world.module target.source).peek name with
      | some value => (.answer (.returned value), world)
      | none => giveUp how target world
    | .error fault => deliver how target world (.error fault)
  | .forward _ _ [] => (.answer .unit, world)
  | .forward m source ((localName, remoteName) :: rest) =>
    (.demand (.forward m source rest),
      world.forward m source localName remoteName ((world.module source).peek remoteName))
  | .finish _ | .wildcards _ => (.answer .unit, world)

end Demand

namespace Machine

/-- The machine that begins to run a program in a world. -/
def start (program : Program σ) (world : World σ) : Machine σ := ⟨.run program, [], world⟩

/-- A machine from a control and the world that came with it. -/
def join (stack : List (Frame σ)) (result : Control σ × World σ) : Machine σ :=
  ⟨result.1, stack, result.2⟩

/-- Asks a module to go on by one step, for a demand that waits for it. -/
def advance (demand : Demand) (m : ModuleId) (stack : List (Frame σ)) (world : World σ) :
    Machine σ :=
  if (world.module m).held then join stack (demand.react (world.record m (.refused m)) .busy)
  else
    match (world.module m).slot.readiness with
    | .failed cause => join stack (demand.react world (.failed (.failed (world.label m) cause)))
    | .idle => join stack (demand.react world .idle)
    | .exhausted => join stack (demand.react world .exhausted)
    | .ready body =>
      ⟨.run (body.next m), .stepping m body.verdict demand :: stack,
        (world.update m (·.resumed body)).record m (.resuming m ((world.module m).steps + 1))⟩

def runHooks (m : ModuleId) (after : After) (stack : List (Frame σ)) (world : World σ) :
    List (Hook σ) → Machine σ
  | hook :: rest =>
    ⟨.run (hook.code m), .hooks m rest after :: stack, world.record m (.hookStarted m hook.ticket)⟩
  | [] =>
    match after with
    | .goOn demand => join stack (demand.react world .stepped)
    | .answer outcome => ⟨.answer outcome, stack, world⟩

/-- Loads a module, and runs the hooks that waited for it. One that has loaded has none left. -/
def load (m : ModuleId) (after : After) (stack : List (Frame σ)) (world : World σ) : Machine σ :=
  match (world.module m).hooks with
  | none => runHooks m after stack world []
  | some queue =>
    runHooks m after stack ((world.update m Module.load).record m (.hooksRun m queue.length)) queue

/-- Hands an outcome to the frame that waits for it. A panic goes through steps, factories and
hooks, which only let go of their modules. -/
def resumeFrame (stack : List (Frame σ)) (world : World σ) : Frame σ → Outcome → Machine σ
  | .caller next, outcome => ⟨.run (next outcome), stack, world⟩
  | .stepping m _ _, .panicked message =>
    ⟨.answer (.panicked message), stack, world.update m Module.release⟩
  | .stepping m _ demand, .failed cause =>
    join stack (demand.react ((world.update m (·.fail cause)).record m (.bodyFailed m cause))
      (.failed (.failed (world.label m) cause)))
  | .stepping m verdict demand, .returned value =>
    match verdict value with
    | .yield => join stack (demand.react (world.update m Module.yield) .stepped)
    | .complete =>
      load m (.goOn demand) stack
        ((world.update m Module.complete).record m (.completed m (world.module m).steps))
  | .building m _, .panicked message =>
    ⟨.answer (.panicked message), stack, world.update m Module.release⟩
  | .building m body, _ =>
    ⟨.demand (.wildcards m), stack,
      (world.update m (·.attach body)).record m (.executing m (world.module m).wildcards)⟩
  | .hooks _ _ _, .panicked message => ⟨.answer (.panicked message), stack, world⟩
  | .hooks m rest after, _ => runHooks m after stack world rest

/-- Settles several names of a module, or none. A module that has no body, or whose body has ended,
then has loaded. -/
def commit (m : ModuleId) (entries : List (String × Value)) (next : Outcome → Program σ)
    (stack : List (Frame σ)) (world : World σ) : Machine σ :=
  match (world.module m).firstUndeclared? entries with
  | some name => ⟨.run (next (.failed (.undeclaredExport (world.label m) name))), stack, world⟩
  | none =>
    match (world.record m (.committed m (world.module m).state)).settleEach m entries with
    | (.error fault, settled) => ⟨.run (next (.failed fault)), stack, settled⟩
    | (.ok (), settled) =>
      match (settled.module m).state with
      | .pending | .completed => load m (.answer .unit) (.caller next :: stack) settled
      | _ => ⟨.run (next .unit), stack, settled⟩

/-- Begins to make a module's body, which is refused when there is one or one is being made. -/
def execute (m : ModuleId) (factory : Program σ) (body : Body σ) (next : Outcome → Program σ)
    (stack : List (Frame σ)) (world : World σ) : Machine σ :=
  if (world.module m).held = false ∧ (world.module m).slot.state = .pending then
    ⟨.run factory, .building m body :: .caller next :: stack, world.update m Module.hold⟩
  else ⟨.run (next (.failed (.alreadyAttached (world.label m)))), stack, world⟩

/-- Registers a hook, and runs it if the module has loaded. -/
def importer (m : ModuleId) (hook : ModuleId → Program σ) (next : Outcome → Program σ)
    (stack : List (Frame σ)) (world : World σ) : Machine σ :=
  match (world.module m).hooks with
  | some queue => ⟨.run (next .unit), stack, world.enqueue m queue hook⟩
  | none =>
    runHooks m (.answer .unit) (.caller next :: stack) (world.update m (·.register none))
      [⟨(world.module m).tickets, hook⟩]

/-- What a call hands to its caller. A function cannot fail: a fault that its code leaves reads as
undefined. -/
def callResult : Outcome → Outcome
  | .failed _ => .unit
  | outcome => outcome

/-- Calls a value; one that is no function does nothing. -/
def call (callee : Value) (arguments : List Value) (next : Outcome → Program σ)
    (stack : List (Frame σ)) (world : World σ) : Machine σ :=
  match callee with
  | .function _ id =>
    match world.functions[id]? with
    | some code => ⟨.run (code arguments), .caller (next ∘ callResult) :: stack, world⟩
    | none => ⟨.run (next .unit), stack, world⟩
  | _ => ⟨.run (next .unit), stack, world⟩

/-- What a resumption that belongs to no module hands to its caller: the body's report. -/
def reportOf (verdict : Value → Step) : Outcome → Outcome
  | .returned value => .returned (.string (verdict value).name)
  | outcome => outcome

def resume (id : BodyId) (m : ModuleId) (next : Outcome → Program σ) (stack : List (Frame σ))
    (world : World σ) : Machine σ :=
  match world.bodies[id]? with
  | some body =>
    ⟨.run (body.next m), .caller (next ∘ reportOf body.verdict) :: stack,
      { world with bodies := world.bodies.set id body.advanced }⟩
  | none => ⟨.run (next (.returned (.string Step.complete.name))), stack, world⟩

/-- One transition of a program. -/
def stepProgram (stack : List (Frame σ)) (world : World σ) : Program σ → Machine σ
  | .done outcome =>
    match stack with
    | [] => ⟨.answer outcome, [], world⟩
    | frame :: rest => resumeFrame rest world frame outcome
  | .host change next =>
    ⟨.run (next (change world.host)), stack, { world with host := change world.host }⟩
  | .act action next =>
    let (reply, world) := action.perform world
    ⟨.run (next reply), stack, world⟩
  | .demand demand next => ⟨.demand demand, .caller next :: stack, world⟩
  | .commit m entries next => commit m entries next stack world
  | .execute m factory code ending next => execute m factory ⟨0, code, ending⟩ next stack world
  | .importer m hook next => importer m hook next stack world
  | .function name code next =>
    let (value, world) := world.define name code
    ⟨.run (next value), stack, world⟩
  | .call callee arguments next => call callee arguments next stack world
  | .detach code ending next =>
    let (id, world) := world.detach ⟨0, code, ending⟩
    ⟨.run (next id), stack, world⟩
  | .resume id m next => resume id m next stack world
  | .remaining id next => ⟨.run (next ((world.bodies[id]?).elim 0 Body.remaining)), stack, world⟩

def stepDemand (stack : List (Frame σ)) (world : World σ) (demand : Demand) : Machine σ :=
  match demand.awaited? world with
  | some m => advance demand m stack world
  | none => join stack (demand.proceed world)

/-- One transition. -/
def step (machine : Machine σ) : Machine σ :=
  match machine.control with
  | .run program => stepProgram machine.stack machine.world program
  | .demand demand => stepDemand machine.stack machine.world demand

/-- The outcome of a run that has ended. -/
def outcome? (machine : Machine σ) : Option Outcome :=
  match machine.control, machine.stack with
  | .run (.done outcome), [] => some outcome
  | _, _ => none

/-- Runs to the end, for at most as many transitions as `limit` tells. -/
def run? : (limit : Nat) → Machine σ → Option (Outcome × World σ)
  | 0, _ => none
  | limit + 1, machine =>
    match machine.outcome? with
    | some outcome => some (outcome, machine.world)
    | none => run? limit machine.step

end Machine

end LiveBindings
