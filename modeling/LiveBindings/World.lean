import LiveBindings.Module

namespace LiveBindings

variable {σ : Type}

/-- Everything that a program can change. -/
structure World (σ : Type) where
  /-- The modules, each at its identity. -/
  modules : List (Module σ)
  /-- What the functions do, each at its identity. -/
  functions : List (List Value → Program σ)
  /-- The bodies that belong to no module, each at its identity. -/
  bodies : List (Body σ)
  /-- The modules that were prepared, by identifier. -/
  registry : Table ModuleId
  /-- The configuration of prepared modules, apart from their labels. -/
  template : Config
  /-- What happened, the latest first. -/
  journal : List Event
  /-- The programs' own state. -/
  host : σ

namespace World

def empty (template : Config) (host : σ) : World σ :=
  ⟨[], [], [], Table.empty, template, [], host⟩

def module (world : World σ) (m : ModuleId) : Module σ := world.modules.getD m .absent

instance : Membership ModuleId (World σ) := ⟨fun world m => m < world.modules.length⟩

def update (world : World σ) (m : ModuleId) (change : Module σ → Module σ) : World σ :=
  { world with modules := world.modules.modify m change }

def log (world : World σ) (event : Event) : World σ :=
  { world with journal := event :: world.journal }

/-- Adds an event about a module to the journal. Nothing happens to a module that was not made. -/
def record (world : World σ) (m : ModuleId) (event : Event) : World σ :=
  if m < world.modules.length then world.log event else world

def label (world : World σ) (m : ModuleId) : String := (world.module m).label

@[simp]
theorem module_log (world : World σ) (event : Event) (m : ModuleId) :
    (world.log event).module m = world.module m := rfl

@[simp]
theorem module_record (world : World σ) (about : ModuleId) (event : Event) (m : ModuleId) :
    (world.record about event).module m = world.module m := by
  unfold record
  split <;> rfl

theorem module_update_self {world : World σ} {m : ModuleId} (change : Module σ → Module σ)
    (made : m ∈ world) : (world.update m change).module m = change (world.module m) := by
  have bound : m < world.modules.length := made
  simp [module, update, List.getD, bound]

theorem module_update_of_ne (world : World σ) {m other : ModuleId} (differs : other ≠ m)
    (change : Module σ → Module σ) : (world.update m change).module other = world.module other := by
  simp [module, update, List.getD, Ne.symm differs]

def create (world : World σ) (names : List ExportName) (config : Config) : ModuleId × World σ :=
  (world.modules.length, { world with modules := world.modules ++ [.fresh names config] })

def settle (world : World σ) (m : ModuleId) (name : String) (value : Value) :
    Except Fault Unit × World σ :=
  if (world.module m).declares name then
    (.ok (), (world.record m (.settled m name value)).update m (·.bind name value))
  else (.error (.undeclaredExport (world.label m) name), world)

/-- Settles names of a module one after another, as far as the first one that may not be written. -/
def settleEach (world : World σ) (m : ModuleId) :
    List (String × Value) → Except Fault Unit × World σ
  | [] => (.ok (), world)
  | (name, value) :: rest =>
    match world.settle m name value with
    | (.ok (), written) => written.settleEach m rest
    | (.error fault, stopped) => (.error fault, stopped)

/-- The world with names of a module settled all of which may be written. -/
def settleAll (world : World σ) (m : ModuleId) (entries : List (String × Value)) : World σ :=
  entries.foldl (fun world entry =>
    (world.record m (.settled m entry.1 entry.2)).update m (·.bind entry.1 entry.2)) world

/-- What a module has to give to a merge: its settled names, except for the default slot. -/
def offered (world : World σ) (source : ModuleId) : List (String × Value) :=
  (world.module source).bindings.entries.filter (·.1 ≠ defaultExport)

/-- Takes all that another module offers, and counts the merge. -/
def merge (world : World σ) (m source : ModuleId) : World σ :=
  let entries := world.offered source
  let merged := world.update m fun module => (module.defineAll entries).countMerge
  merged.record m
    (.merged m source entries (merged.module m).merges (merged.module m).wildcards)

/-- Takes a name of another module under a local name, with its value if it is known. -/
def forward (world : World σ) (m source : ModuleId) (localName remoteName : String)
    (value : Option Value) : World σ :=
  (world.record m (.forwarded m source localName remoteName value)).update m
    (·.define localName value)

/-- Gives the module of an identifier. If there is none it is made, called by its identifier, and
otherwise configured as the template says. -/
def prepare (world : World σ) (id : String) (names : List ExportName) : ModuleId × World σ :=
  match world.registry.find? id with
  | some m => (m, world)
  | none =>
    let (m, made) :=
      (world.log (.prepared id)).create names { world.template with label := some id }
    (m, { made with registry := made.registry.insert id m })

def define (world : World σ) (name : String) (code : List Value → Program σ) : Value × World σ :=
  (.function name world.functions.length, { world with functions := world.functions ++ [code] })

def detach (world : World σ) (body : Body σ) : BodyId × World σ :=
  (world.bodies.length, { world with bodies := world.bodies ++ [body] })

/-- Registers a hook of a module that has not loaded. -/
def enqueue (world : World σ) (m : ModuleId) (queue : List (Hook σ)) (code : ModuleId → Program σ) :
    World σ :=
  let ticket := (world.module m).tickets
  (world.update m (·.register (some (queue ++ [⟨ticket, code⟩])))).record m (.hookQueued m ticket)

end World

def Action.perform (world : World σ) : (action : Action) → action.Reply × World σ
  | .create names config => world.create names config
  | .observe m => ((world.module m).observation, world)
  | .configuration m => ((world.module m).config, world)
  | .settle m name value => world.settle m name value
  | .merge m source => ((), world.merge m source)
  | .prepare id names => world.prepare id names
  | .lookup id => (world.registry.find? id, world)
  | .registered id => (world.registry.contains id, world)
  | .identifiers => (world.registry.keys, world)
  | .registrySize => (world.registry.size, world)
  | .registryIsEmpty => (world.registry.isEmpty, world)
  | .note label values => ((), world.log (.note label values))

end LiveBindings
