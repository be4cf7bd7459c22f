import LiveBindings.Proofs.Clauses
import LiveBindings.Proofs.ImportChain
import LiveBindings.Proofs.Reexport
import LiveBindings.Proofs.Setting

namespace LiveBindings

open Machine

variable {σ : Type}

/-- A module of a chain of re-exports: the name that it passes on, and the statements of its body after
the first one. -/
structure Relay (σ : Type) where
  place : ModuleId
  name : String
  further : List (ModuleId → Program σ)

namespace Relay

variable {link : Relay σ} {rest : List (Relay σ)} {value : Value}

/-- The first statement of a module, given the rest of the chain: it takes the name of the next module
under its own name, or settles its name when there is no next one. -/
def opening (link : Relay σ) (value : Value) : List (Relay σ) → ModuleId → Program σ
  | [], m => (Code.settle m link.name value).program
  | next :: _, m => (Code.forward m next.place [(link.name, next.name)]).program

def body (link : Relay σ) (value : Value) (rest : List (Relay σ)) : Body σ :=
  .ofStatements (link.opening value rest :: link.further)

/-- The module after its first statement. Only a name that was taken is declared anew. -/
def relayed (link : Relay σ) (value : Value) (rest : List (Relay σ)) (module : Module σ) : Module σ :=
  let entered := module.resumed (link.body value rest)
  match rest with
  | [] => (entered.bind link.name value).yield
  | _ :: _ => (entered.define link.name (some value)).yield

theorem peek_relayed (link : Relay σ) (value : Value) (rest : List (Relay σ)) (module : Module σ) :
    (link.relayed value rest module).peek link.name = some value := by
  cases rest <;> exact Table.find?_insert_self ..

/-- A body that waits before its second statement. -/
def Paused (link : Relay σ) (value : Value) (rest : List (Relay σ)) (life : Life σ) : Prop :=
  life = ⟨⟨some ((link.body value rest).after 1), .suspended, none⟩, false, 1⟩

theorem paused_relayed {module : Module σ}
    (life : module.life = ⟨⟨some (link.body value rest), .suspended, none⟩, false, 0⟩) :
    link.Paused value rest (link.relayed value rest module).life := by
  have slot : module.slot = _ := congrArg Life.slot life
  have steps : module.steps = 0 := congrArg Life.steps life
  cases rest <;>
    simp [Paused, relayed, Module.life, Module.yield, Module.release, Module.resumed, Module.hold,
      Module.bind, Module.define, slot, steps, Body.advanced, Body.after]

end Relay

namespace World

variable {world later : World σ} {first next : Relay σ} {links rest : List (Relay σ)} {value : Value}

/-- Modules whose bodies have not begun, each of which takes its name from the next one. -/
structure Relays (world : World σ) (links : List (Relay σ)) (value : Value) : Prop where
  waiting : ∀ link rest, link :: rest <:+ links → (world.module link.place).life =
    ⟨⟨some (link.body value rest), .suspended, none⟩, false, 0⟩
  declared : ∀ link ∈ links, (world.module link.place).declares link.name = true
  unsettled : ∀ link ∈ links, (world.module link.place).peek link.name = none
  distinct : (links.map Relay.place).Nodup

/-- A value has come through a chain, and nothing else has happened. -/
structure Relayed (before : World σ) (links : List (Relay σ)) (value : Value) (after : World σ) :
    Prop where
  modules : ∀ link rest, link :: rest <:+ links →
    after.module link.place = link.relayed value rest (before.module link.place)
  beside : ∀ m, (∀ link ∈ links, m ≠ link.place) → after.module m = before.module m
  setting : after.setting = before.setting

namespace Relays

theorem life (relays : world.Relays (first :: rest) value) : (world.module first.place).life =
    ⟨⟨some (first.body value rest), .suspended, none⟩, false, 0⟩ :=
  relays.waiting first rest (List.suffix_refl _)

theorem free (relays : world.Relays (first :: rest) value) :
    (world.module first.place).held = false := congrArg Life.held relays.life

theorem lacks (relays : world.Relays (first :: rest) value) :
    (world.module first.place).lacks first.name = true := by
  have member : first ∈ first :: rest := List.mem_cons_self
  simp [Module.lacks, Module.awaits, relays.unsettled first member, relays.declared first member]

/-- Inside the first step of a chain, the other modules are a chain as well. -/
theorem tail (relays : world.Relays (first :: rest) value) :
    (world.begun first.place (first.body value rest)).Relays rest value := by
  obtain ⟨outside, distinct⟩ := List.nodup_cons.mp relays.distinct
  have same (link : Relay σ) (member : link ∈ rest) :
      (world.begun first.place (first.body value rest)).module link.place =
        world.module link.place := by
    have differs : link.place ≠ first.place := fun same =>
      outside (same ▸ List.mem_map_of_mem member)
    exact begun_of_ne world differs _
  refine ⟨fun link tail suffix => ?_, fun link member => ?_, fun link member => ?_, distinct⟩
  · rw [same link (suffix.subset List.mem_cons_self)]
    exact relays.waiting link tail (suffix.trans (List.suffix_cons ..))
  · rw [same link member]
    exact relays.declared link (List.mem_cons_of_mem _ member)
  · rw [same link member]
    exact relays.unsettled link (List.mem_cons_of_mem _ member)

/-- The module makes its first step when the first statement of its body ends. -/
theorem goes {ran : World σ} (relays : world.Relays (first :: rest) value)
    (ends : (Control.run (first.opening value rest first.place)).Ends
      (world.begun first.place (first.body value rest)) .unit ran) :
    world.Goes first.place .stepped (ran.update first.place Module.yield) := by
  have entry : (first.opening value rest :: first.further)[0]? = some (first.opening value rest) := rfl
  exact goes_statement entry relays.free (congrArg Life.slot relays.life) ends

end Relays

theorem Puts.forward {module : Module σ} {m : ModuleId} (puts : world.Puts m module later)
    (source : ModuleId) (localName remoteName : String) (value : Option Value) :
    world.Puts m (module.define localName value)
      (later.forward m source localName remoteName value) :=
  (puts.record ..).update (·.define localName value)

theorem setting_begun (world : World σ) (m : ModuleId) (body : Body σ) :
    (world.begun m body).setting = world.setting := by
  rw [begun, setting_record, setting_update]

theorem setting_bound (world : World σ) (m : ModuleId) (name : String) (value : Value) :
    (world.bound m name value).setting = world.setting := by
  rw [bound, setting_update, setting_record]

end World

/-- A re-export of one name that a step of the other module settles. -/
theorem Demand.ends_forward_of_goes {world middle : World σ} {m source : ModuleId}
    {localName remoteName : String} {value : Value}
    (lacks : (world.module source).lacks remoteName = true)
    (goes : world.Goes source .stepped middle)
    (settled : (middle.module source).peek remoteName = some value) :
    (Control.demand (.forward m source [(localName, remoteName)])).Ends world .unit
      (middle.forward m source localName remoteName (some value)) := by
  have awaited : (Demand.forward m source [(localName, remoteName)]).awaited? world = some source :=
    if_pos lacks
  have unawaited : (Demand.forward m source [(localName, remoteName)]).awaited? middle = none := by
    simp [awaited?, Module.lacks, settled]
  have halts : (Demand.forward m source [(localName, remoteName)]).Halts source middle _ :=
    .unawaited unawaited
  simp only [proceed, settled] at halts
  refine (Steps.step awaited goes (.refl middle)).ends halts fun stack => ?_
  exact .of_step (step_of_unawaited rfl stack)

namespace World

variable {world : World σ} {first : Relay σ} {rest : List (Relay σ)} {value : Value}

/-- The first step of a module of a chain, once the modules after it have passed the value on. -/
theorem Relayed.cons {middle ran : World σ} {module : Module σ}
    (relays : world.Relays (first :: rest) value)
    (relayed : (world.begun first.place (first.body value rest)).Relayed rest value middle)
    (puts : middle.Puts first.place module ran) (setting : ran.setting = middle.setting)
    (stopped : module.yield = first.relayed value rest (world.module first.place)) :
    world.Relayed (first :: rest) value (ran.update first.place Module.yield) := by
  obtain ⟨made, there, beside⟩ := puts.update Module.yield
  have outside := (List.nodup_cons.mp relays.distinct).1
  have entered (m : ModuleId) (differs : m ≠ first.place) :
      (world.begun first.place (first.body value rest)).module m = world.module m :=
    begun_of_ne world differs _
  refine ⟨fun link tail suffix => ?_, fun m others => ?_, ?_⟩
  · rcases List.suffix_cons_iff.mp suffix with whole | within
    · cases whole
      rw [there, stopped]
    · have differs : link.place ≠ first.place := fun same =>
        outside (same ▸ List.mem_map_of_mem (within.subset List.mem_cons_self))
      rw [beside _ differs, relayed.modules link tail within, entered _ differs]
  · have differs := others first List.mem_cons_self
    rw [beside m differs, relayed.beside m fun link member =>
      others link (List.mem_cons_of_mem _ member), entered m differs]
  · rw [setting_update, setting, relayed.setting, setting_begun]

/-- When the first module of a chain is asked to go on, the value comes through the whole chain. -/
theorem Relays.exists_goes (relays : world.Relays (first :: rest) value) :
    ∃ later, world.Goes first.place .stepped later ∧ world.Relayed (first :: rest) value later := by
  induction rest generalizing world first with
  | nil =>
    have begun := (Puts.refl (mem_of_free relays.free)).begun (first.body value [])
    have declared : first.name ∈
        ((world.begun first.place (first.body value [])).module first.place).declared := by
      rw [begun.there]
      exact relays.declared first List.mem_cons_self
    have puts := (Puts.refl begun.made).bound first.name value
    rw [begun.there] at puts
    have still : (world.begun first.place (first.body value [])).Relayed [] value
        (world.begun first.place (first.body value [])) :=
      ⟨fun _ _ suffix => (nomatch List.suffix_nil.mp suffix), fun _ _ => rfl, rfl⟩
    exact ⟨_, relays.goes (Draft.ends_settle declared value),
      .cons relays still puts (setting_bound ..) rfl⟩
  | cons next rest ih =>
    obtain ⟨middle, goes, relayed⟩ := ih relays.tail
    have settled : (middle.module next.place).peek next.name = some value := by
      rw [relayed.modules next rest (List.suffix_refl _), Relay.peek_relayed]
    have ends : (Control.demand (.forward first.place next.place [(first.name, next.name)])).Ends _
        .unit _ := Demand.ends_forward_of_goes relays.tail.lacks goes settled
    -- The module is left as it entered its step, since it stands nowhere else in the chain.
    have begun := (Puts.refl (mem_of_free relays.free)).begun (first.body value (next :: rest))
    have outside := (List.nodup_cons.mp relays.distinct).1
    have kept := relayed.beside first.place fun link member same =>
      outside (same ▸ List.mem_map_of_mem member)
    rw [begun.there] at kept
    have made : first.place ∈ middle := goes.grows.mem begun.made
    have puts := (Puts.refl made).forward next.place first.name next.name (some value)
    rw [kept] at puts
    exact ⟨_, relays.goes (Control.ends_demand.mpr ends),
      .cons relays relayed puts (setting_forward ..) rfl⟩

end World

/-- In a chain of modules which begin by re-exporting a name of the next one, a read of the first name
gives the value that the last module settles. Every body has run its first statement then and none of
the others, and nothing else has changed. -/
theorem value_relayed {world : World σ} {first : Relay σ} {rest : List (Relay σ)} {value : Value}
    {target : Target} (how : Reading) (relays : world.Relays (first :: rest) value)
    (source : target.source = first.place) (remote : target.remote = .ok first.name) :
    ∃ later, (Control.demand (.read how target)).Ends world (.returned value) later ∧
      world.Relayed (first :: rest) value later ∧
      ∀ link rest', link :: rest' <:+ first :: rest →
        (later.module link.place).peek link.name = some value ∧
        (later.module link.place).steps = 1 ∧ (later.module link.place).state = .suspended ∧
        (later.module link.place).slot.body = some ((link.body value rest').after 1) := by
  obtain ⟨later, goes, relayed⟩ := relays.exists_goes
  refine ⟨later, ?_, relayed, fun link rest' suffix => ?_⟩
  · have lacks := relays.lacks
    have settled : (later.module first.place).peek first.name = some value := by
      rw [relayed.modules first rest (List.suffix_refl _), Relay.peek_relayed]
    rw [← source] at lacks goes settled
    have awaited : (Demand.read how target).awaited? world = some target.source := by
      rw [Demand.awaited?_of_remote how remote, if_pos lacks]
    have reads := Demand.ends_read_of_settled how remote settled
    exact reads.of_reaches fun stack => Demand.reaches_of_goes awaited goes stack
  · have paused := Relay.paused_relayed (relays.waiting link rest' suffix)
    rw [← relayed.modules link rest' suffix] at paused
    have slot := congrArg Life.slot paused
    have free := congrArg Life.held paused
    refine ⟨?_, congrArg Life.steps paused, ?_, congrArg Slot.body slot⟩
    · rw [relayed.modules link rest' suffix, Relay.peek_relayed]
    · exact (Module.state_of_free free).trans (congrArg Slot.state slot)

/-- Three modules, each of which passes the name of the next one on before it fails or writes anew. -/
def passing : Program Unit :=
  Code.program do
    let a ← Code.create [.named "x"] .standard
    let b ← Code.create [.named "y", .named "x"] .standard
    let c ← Code.create [.named "z"] { Config.standard with policy := .strict }
    let _ ← Code.executeStatements a Code.unit
      [fun m => Code.forward m b [("x", "y")], fun _ => Code.fail (.body "late")]
    let _ ← Code.executeStatements b Code.unit
      [fun m => Code.forward m c [("y", "z")], fun m => Code.forward m a [("x", "x")]]
    Code.executeStatements c Code.unit
      [fun m => Code.settle m "z" (.boolean true), fun m => Code.settle m "z" .null]

def passed : World Unit := ((Machine.start passing (.empty .standard ())).after 15).world

def passers : List (Relay Unit) :=
  [⟨0, "x", [fun _ => (Code.fail (.body "late")).program]⟩,
    ⟨1, "y", [fun m => (Code.forward m 0 [("x", "x")]).program]⟩,
    ⟨2, "z", [fun m => (Code.settle m "z" .null).program]⟩]

theorem relays_passers : passed.Relays passers (.boolean true) where
  waiting link rest suffix := by
    rcases List.suffix_cons_iff.mp suffix with whole | suffix
    · cases whole
      rfl
    rcases List.suffix_cons_iff.mp suffix with whole | suffix
    · cases whole
      rfl
    rcases List.suffix_cons_iff.mp suffix with whole | suffix
    · cases whole
      rfl
    · cases List.suffix_nil.mp suffix
  declared := by
    simp only [passers, List.forall_mem_cons]
    exact ⟨rfl, rfl, rfl, List.forall_mem_nil _⟩
  unsettled := by
    simp only [passers, List.forall_mem_cons]
    exact ⟨rfl, rfl, rfl, List.forall_mem_nil _⟩
  distinct := show [0, 1, 2].Nodup by decide

theorem value_relayed_of_passers :
    passed.Relays passers (.boolean true) ∧
      ∃ later, (Control.demand (.read .get (.named 0 "x"))).Ends passed (.returned (.boolean true))
          later ∧
        passed.Relayed passers (.boolean true) later ∧
        (later.module 1).steps = 1 ∧ (later.module 1).state = .suspended ∧
        (later.module 1).peek "y" = some (.boolean true) := by
  have source : (Target.named 0 "x").source = 0 := rfl
  obtain ⟨later, ends, relayed, links⟩ := value_relayed .get relays_passers source rfl
  obtain ⟨settled, steps, waits, _⟩ := links _ _ ⟨[_], rfl⟩
  exact ⟨relays_passers, later, ends, relayed, steps, waits, settled⟩

end LiveBindings
