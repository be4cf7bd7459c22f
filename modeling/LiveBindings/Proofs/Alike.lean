import LiveBindings.Proofs.Apart
import Mathlib.Data.List.Forall2

namespace LiveBindings

variable {σ : Type}

/-- A warning of the log. -/
def Event.warns (event : Event) : Bool := (event.logLine? fun _ => "").any (·.level = .warn)

theorem Target.warns_failure (target : Target) (fault : Fault) :
    (target.failure fault).warns = true := by
  cases target <;> rfl

/-- The configuration with the policy that lets every read pass. -/
def Config.relaxed (config : Config) : Config := { config with policy := .lenient }

/-- The demand is no read that hands a fault to its reader. -/
def Demand.Lenient : Demand → Prop
  | .read how _ => how = .get
  | _ => True

/-- The action does not look at a configuration. -/
def Action.Lenient : Action → Prop
  | .configuration _ => False
  | _ => True

def After.Lenient : After → Prop
  | .goOn demand => demand.Lenient
  | .answer _ => True

/-- The programs differ at most in the policies of the modules that they make. They read leniently
and look at no configuration, wherever they come to. -/
inductive Program.Alike : Program σ → Program σ → Prop
  | done (outcome : Outcome) : Alike (.done outcome) (.done outcome)
  | host {change one other} : (∀ state, Alike (one state) (other state)) →
      Alike (.host change one) (.host change other)
  | create {names config config' one other} : config.relaxed = config'.relaxed →
      (∀ m, Alike (one m) (other m)) →
      Alike (.act (.create names config) one) (.act (.create names config') other)
  | act {action one other} : action.Lenient → (∀ reply, Alike (one reply) (other reply)) →
      Alike (.act action one) (.act action other)
  | demand {demand one other} : demand.Lenient → (∀ outcome, Alike (one outcome) (other outcome)) →
      Alike (.demand demand one) (.demand demand other)
  | commit {m entries one other} : (∀ outcome, Alike (one outcome) (other outcome)) →
      Alike (.commit m entries one) (.commit m entries other)
  | execute {m factory factory' code code' ending one other} : Alike factory factory' →
      (∀ i m, Alike (code i m) (code' i m)) → (∀ outcome, Alike (one outcome) (other outcome)) →
      Alike (.execute m factory code ending one) (.execute m factory' code' ending other)
  | importer {m hook hook' one other} : (∀ m, Alike (hook m) (hook' m)) →
      (∀ outcome, Alike (one outcome) (other outcome)) →
      Alike (.importer m hook one) (.importer m hook' other)
  | function {name code code' one other} : (∀ arguments, Alike (code arguments) (code' arguments)) →
      (∀ value, Alike (one value) (other value)) →
      Alike (.function name code one) (.function name code' other)
  | call {callee arguments one other} : (∀ outcome, Alike (one outcome) (other outcome)) →
      Alike (.call callee arguments one) (.call callee arguments other)
  | detach {code code' ending one other} : (∀ i m, Alike (code i m) (code' i m)) →
      (∀ body, Alike (one body) (other body)) →
      Alike (.detach code ending one) (.detach code' ending other)
  | resume {body m one other} : (∀ outcome, Alike (one outcome) (other outcome)) →
      Alike (.resume body m one) (.resume body m other)
  | remaining {body one other} : (∀ count, Alike (one count) (other count)) →
      Alike (.remaining body one) (.remaining body other)

structure Body.Alike (one other : Body σ) : Prop where
  position : one.position = other.position
  ending : one.ending = other.ending
  code : ∀ i m, (one.code i m).Alike (other.code i m)

/-- What is the same of a module that may go on by one step. -/
inductive Readiness.Alike : Readiness σ → Readiness σ → Prop
  | failed (cause : Fault) : Alike (.failed cause) (.failed cause)
  | idle : Alike .idle .idle
  | exhausted : Alike .exhausted .exhausted
  | ready {one other} : one.Alike other → Alike (.ready one) (.ready other)

structure Hook.Alike (one other : Hook σ) : Prop where
  ticket : one.ticket = other.ticket
  code : ∀ m, (one.code m).Alike (other.code m)

/-- The module with nothing that runs, and with the policy that lets every read pass. -/
def Module.bare (module : Module σ) : Module σ :=
  { module with
    config := module.config.relaxed, slot := { module.slot with body := none }, hooks := none }

structure Module.Alike (one other : Module σ) : Prop where
  bare : one.bare = other.bare
  body : Option.Rel Body.Alike one.slot.body other.slot.body
  hooks : Option.Rel (List.Forall₂ Hook.Alike) one.hooks other.hooks

structure World.Alike (one other : World σ) : Prop where
  modules : List.Forall₂ Module.Alike one.modules other.modules
  functions : List.Forall₂ (fun code code' => ∀ arguments, (code arguments).Alike (code' arguments))
    one.functions other.functions
  bodies : List.Forall₂ Body.Alike one.bodies other.bodies
  registry : one.registry = other.registry
  template : one.template.relaxed = other.template.relaxed
  journal : one.journal.filter (!·.warns) = other.journal.filter (!·.warns)
  host : one.host = other.host

inductive Control.Alike : Control σ → Control σ → Prop
  | run {one other} : one.Alike other → Alike (.run one) (.run other)
  | demand {demand} : demand.Lenient → Alike (.demand demand) (.demand demand)

inductive Frame.Alike : Frame σ → Frame σ → Prop
  | caller {one other} : (∀ outcome, (one outcome).Alike (other outcome)) →
      Alike (.caller one) (.caller other)
  | stepping {m verdict demand} : demand.Lenient →
      Alike (.stepping m verdict demand) (.stepping m verdict demand)
  | building {m one other} : one.Alike other → Alike (.building m one) (.building m other)
  | hooks {m after one other} : after.Lenient → List.Forall₂ Hook.Alike one other →
      Alike (.hooks m one after) (.hooks m other after)

structure Machine.Alike (one other : Machine σ) : Prop where
  control : one.control.Alike other.control
  stack : List.Forall₂ Frame.Alike one.stack other.stack
  world : one.world.Alike other.world

namespace Body.Alike

variable {one other : Body σ} (alike : one.Alike other)

include alike

theorem next (m : ModuleId) : (one.next m).Alike (other.next m) := by
  unfold Body.next
  rw [alike.position]
  exact alike.code _ m

theorem verdict : one.verdict = other.verdict := by
  unfold Body.verdict
  rw [alike.ending, alike.position]

theorem remaining : one.remaining = other.remaining := by
  unfold Body.remaining
  rw [alike.ending, alike.position]

theorem advanced : one.advanced.Alike other.advanced :=
  ⟨congrArg (· + 1) alike.position, alike.ending, alike.code⟩

end Body.Alike

section

variable {α : Type} {relation : α → α → Prop} {one other : List α}

theorem forall₂_getElem? (all : List.Forall₂ relation one other) (i : Nat) :
    Option.Rel relation one[i]? other[i]? := by
  induction all generalizing i with
  | nil => exact .none
  | cons head _ ih =>
    cases i with
    | zero => exact .some head
    | succ i => exact ih i

theorem forall₂_modify {change change' : α → α} (all : List.Forall₂ relation one other)
    (changes : ∀ a b, relation a b → relation (change a) (change' b)) (i : Nat) :
    List.Forall₂ relation (one.modify i change) (other.modify i change') := by
  induction all generalizing i with
  | nil => cases i <;> exact .nil
  | cons head tail ih =>
    cases i with
    | zero => exact .cons (changes _ _ head) tail
    | succ i => exact .cons head (ih i)

end

namespace Module.Alike

variable {one other : Module σ} {body body' : Body σ}

theorem absent : (Module.absent : Module σ).Alike .absent := ⟨rfl, .none, .some .nil⟩

theorem fresh (names : List ExportName) {config config' : Config}
    (same : config.relaxed = config'.relaxed) :
    (Module.fresh names config : Module σ).Alike (.fresh names config') := by
  have bare := congrArg (fun config => (Module.fresh (σ := σ) names config).bare) same
  exact ⟨bare, .none, .some .nil⟩

theorem observation (alike : one.Alike other) : one.observation = other.observation := by
  have loaded : one.hooks.isNone = other.hooks.isNone := by
    have hooks := alike.hooks
    generalize one.hooks = queue at hooks ⊢
    generalize other.hooks = queue' at hooks ⊢
    cases hooks <;> rfl
  have bare := congrArg Module.observation alike.bare
  have same : { one.bare.observation with loaded := one.hooks.isNone } =
      { other.bare.observation with loaded := other.hooks.isNone } := by rw [bare, loaded]
  exact same

/-- A change that the policy and the code have no part in. -/
theorem bare_change (alike : one.Alike other) (change : Module σ → Module σ)
    (bare : ∀ module, (change module).bare = (change module.bare).bare) :
    (change one).bare = (change other).bare := by
  rw [bare, alike.bare, ← bare]

theorem bind (alike : one.Alike other) (name : String) (value : Value) :
    (one.bind name value).Alike (other.bind name value) :=
  ⟨alike.bare_change (·.bind name value) fun _ => rfl, alike.body, alike.hooks⟩

theorem define (alike : one.Alike other) (name : String) (value : Option Value) :
    (one.define name value).Alike (other.define name value) := by
  have bare := alike.bare_change (·.define name value) fun _ => by cases value <;> rfl
  cases value with
  | none => exact ⟨bare, alike.body, alike.hooks⟩
  | some value => exact ⟨bare, alike.body, alike.hooks⟩

theorem defineAll (alike : one.Alike other) (entries : List (String × Value)) :
    (one.defineAll entries).Alike (other.defineAll entries) := by
  unfold Module.defineAll
  induction entries generalizing one other with
  | nil => exact alike
  | cons entry rest ih => exact ih (alike.define entry.1 (some entry.2))

theorem countMerge (alike : one.Alike other) : one.countMerge.Alike other.countMerge :=
  ⟨alike.bare_change _ fun _ => rfl, alike.body, alike.hooks⟩

theorem hold (alike : one.Alike other) : one.hold.Alike other.hold :=
  ⟨alike.bare_change _ fun _ => rfl, alike.body, alike.hooks⟩

theorem release (alike : one.Alike other) : one.release.Alike other.release :=
  ⟨alike.bare_change _ fun _ => rfl, alike.body, alike.hooks⟩

theorem attach (alike : one.Alike other) (bodies : body.Alike body') :
    (one.attach body).Alike (other.attach body') :=
  ⟨alike.bare_change (·.attach body) fun _ => rfl, .some bodies, alike.hooks⟩

theorem resumed (alike : one.Alike other) (bodies : body.Alike body') :
    (one.resumed body).Alike (other.resumed body') :=
  ⟨alike.bare_change (·.resumed body) fun _ => rfl, .some bodies.advanced, alike.hooks⟩

theorem yield (alike : one.Alike other) : one.yield.Alike other.yield :=
  ⟨alike.bare_change _ fun _ => rfl, alike.body, alike.hooks⟩

theorem complete (alike : one.Alike other) : one.complete.Alike other.complete :=
  ⟨alike.bare_change _ fun _ => rfl, .none, alike.hooks⟩

theorem fail (alike : one.Alike other) (cause : Fault) :
    (one.fail cause).Alike (other.fail cause) :=
  ⟨alike.bare_change (·.fail cause) fun _ => rfl, .none, alike.hooks⟩

theorem load (alike : one.Alike other) : one.load.Alike other.load :=
  ⟨alike.bare_change _ fun _ => rfl, alike.body, .none⟩

theorem register {queue queue' : Option (List (Hook σ))} (alike : one.Alike other)
    (hooks : Option.Rel (List.Forall₂ Hook.Alike) queue queue') :
    (one.register queue).Alike (other.register queue') :=
  ⟨alike.bare_change (·.register queue) fun _ => rfl, alike.body, hooks⟩

theorem readiness (alike : one.Alike other) : one.slot.readiness.Alike other.slot.readiness := by
  have failure := congrArg (·.slot.failure) alike.bare
  have state := congrArg (·.slot.state) alike.bare
  simp only [Module.bare] at failure state
  have bodies : Readiness.Alike (one.slot.body.elim .exhausted .ready)
      (other.slot.body.elim .exhausted .ready) := by
    have body := alike.body
    generalize one.slot.body = ready at body ⊢
    generalize other.slot.body = ready' at body ⊢
    cases body with
    | none => exact .exhausted
    | some same => exact .ready same
  unfold Slot.readiness
  rw [failure, state]
  split
  · exact .failed _
  · split
    · exact .idle
    · exact .exhausted
    · exact .exhausted
    · exact bodies
    · exact bodies

end Module.Alike

namespace World.Alike

variable {one other : World σ} {m : ModuleId}

theorem empty {template template' : Config} (same : template.relaxed = template'.relaxed) (host : σ) :
    (World.empty template host).Alike (.empty template' host) :=
  ⟨.nil, .nil, .nil, rfl, same, rfl, rfl⟩

theorem length (alike : one.Alike other) : one.modules.length = other.modules.length :=
  alike.modules.length_eq

theorem module (alike : one.Alike other) (m : ModuleId) : (one.module m).Alike (other.module m) := by
  have entries := forall₂_getElem? alike.modules m
  unfold World.module
  rw [List.getD_eq_getElem?_getD, List.getD_eq_getElem?_getD]
  generalize one.modules[m]? = entry at entries ⊢
  generalize other.modules[m]? = entry' at entries ⊢
  cases entries with
  | some same => exact same
  | none => exact .absent

theorem bare (alike : one.Alike other) (m : ModuleId) : (one.module m).bare = (other.module m).bare :=
  (alike.module m).bare

theorem label (alike : one.Alike other) (m : ModuleId) : one.label m = other.label m :=
  congrArg Observation.label (alike.module m).observation

theorem log (alike : one.Alike other) (event : Event) : (one.log event).Alike (other.log event) := by
  refine { alike with journal := ?_ }
  rw [World.log, World.log, List.filter_cons, List.filter_cons, alike.journal]

theorem record (alike : one.Alike other) (m : ModuleId) (event : Event) :
    (one.record m event).Alike (other.record m event) := by
  unfold World.record
  rw [alike.length]
  split
  · exact alike.log event
  · exact alike

/-- A warning on one side makes no difference. -/
theorem warn_left (alike : one.Alike other) (m : ModuleId) {event : Event}
    (warns : event.warns = true) : (one.record m event).Alike other := by
  unfold World.record
  split
  · refine { alike with journal := ?_ }
    rw [World.log, List.filter_cons_of_neg (by simp [warns]), alike.journal]
  · exact alike

theorem warn_right (alike : one.Alike other) (m : ModuleId) {event : Event}
    (warns : event.warns = true) : one.Alike (other.record m event) := by
  unfold World.record
  split
  · refine { alike with journal := ?_ }
    rw [World.log, List.filter_cons_of_neg (by simp [warns]), alike.journal]
  · exact alike

theorem update {change change' : Module σ → Module σ} (alike : one.Alike other) (m : ModuleId)
    (changes : ∀ one other, one.Alike other → (change one).Alike (change' other)) :
    (one.update m change).Alike (other.update m change') :=
  { alike with modules := forall₂_modify alike.modules changes m }

theorem settleAll (alike : one.Alike other) (m : ModuleId) (entries : List (String × Value)) :
    (one.settleAll m entries).Alike (other.settleAll m entries) := by
  unfold World.settleAll
  induction entries generalizing one other with
  | nil => exact alike
  | cons entry rest ih =>
    refine ih ((alike.record m _).update m fun _ _ alike => ?_)
    exact alike.bind entry.1 entry.2

theorem forward (alike : one.Alike other) (m source : ModuleId) (localName remoteName : String)
    (value : Option Value) : (one.forward m source localName remoteName value).Alike
      (other.forward m source localName remoteName value) :=
  (alike.record m _).update m fun _ _ alike => alike.define localName value

theorem create (alike : one.Alike other) (names : List ExportName) {config config' : Config}
    (same : config.relaxed = config'.relaxed) :
    (one.create names config).1 = (other.create names config').1 ∧
      (one.create names config).2.Alike (other.create names config').2 :=
  ⟨alike.length, { alike with
    modules := List.rel_append alike.modules (.cons (.fresh names same) .nil) }⟩

theorem prepare (alike : one.Alike other) (id : String) (names : List ExportName) :
    (one.prepare id names).1 = (other.prepare id names).1 ∧
      (one.prepare id names).2.Alike (other.prepare id names).2 := by
  unfold World.prepare
  rw [alike.registry]
  split
  · exact ⟨rfl, alike⟩
  · have same : { one.template with label := some id }.relaxed =
        { other.template with label := some id }.relaxed :=
      congrArg (fun config : Config => { config with label := some id }) alike.template
    obtain ⟨identity, made⟩ := (alike.log (.prepared id)).create names same
    have registry := congrArg₂ (Table.insert · id ·) made.registry identity
    exact ⟨identity, { made with registry := registry }⟩

theorem offered (alike : one.Alike other) (source : ModuleId) :
    one.offered source = other.offered source := by
  have bindings := congrArg Observation.bindings (alike.module source).observation
  exact congrArg (fun bindings => bindings.entries.filter (·.1 ≠ defaultExport)) bindings

theorem merge (alike : one.Alike other) (m source : ModuleId) :
    (one.merge m source).Alike (other.merge m source) := by
  have merged := alike.update m fun _ _ alike =>
    (alike.defineAll (one.offered source)).countMerge
  have seen := congrArg Observation.merges (merged.module m).observation
  have declared := congrArg Observation.wildcards (merged.module m).observation
  simp only [Module.observation] at seen declared
  unfold World.merge
  rw [← alike.offered source]
  dsimp only
  rw [← seen, ← declared]
  exact merged.record m _

theorem perform (alike : one.Alike other) {action : Action} (lenient : action.Lenient) :
    (action.perform one).1 = (action.perform other).1 ∧
      (action.perform one).2.Alike (action.perform other).2 := by
  cases action with
  | create names config => exact alike.create names rfl
  | observe m => exact ⟨(alike.module m).observation, alike⟩
  | configuration => cases lenient
  | settle m name value =>
    have declares : (one.module m).declares name = (other.module m).declares name :=
      congrArg (Table.contains · name) (congrArg Observation.declared (alike.module m).observation)
    simp only [Action.perform, World.settle, declares, alike.label m]
    split
    · exact ⟨rfl, (alike.record m _).update m fun _ _ alike => alike.bind name value⟩
    · exact ⟨rfl, alike⟩
  | merge m source => exact ⟨rfl, alike.merge m source⟩
  | prepare id names => exact alike.prepare id names
  | lookup id => exact ⟨congrArg (Table.find? · id) alike.registry, alike⟩
  | registered id => exact ⟨congrArg (Table.contains · id) alike.registry, alike⟩
  | identifiers => exact ⟨congrArg Table.keys alike.registry, alike⟩
  | registrySize => exact ⟨congrArg Table.size alike.registry, alike⟩
  | registryIsEmpty => exact ⟨congrArg Table.isEmpty alike.registry, alike⟩
  | note label values => exact ⟨rfl, alike.log _⟩

end World.Alike

namespace World.Alike

variable {one other : World σ} {m : ModuleId} {stack stack' : List (Frame σ)}

theorem answer (alike : one.Alike other) (waits : List.Forall₂ Frame.Alike stack stack')
    (outcome : Outcome) :
    Machine.Alike ⟨.answer outcome, stack, one⟩ ⟨.answer outcome, stack', other⟩ :=
  ⟨.run (.done outcome), waits, alike⟩

theorem deliver (alike : one.Alike other) (waits : List.Forall₂ Frame.Alike stack stack')
    (target : Target) (result : Except Fault Value) :
    (Machine.join stack (Demand.deliver .get target one result)).Alike
      (.join stack' (Demand.deliver .get target other result)) := by
  cases result with
  | ok value => exact alike.answer waits _
  | error fault =>
    simp only [Demand.deliver]
    split
    · exact alike.answer waits _
    · exact (alike.record _ _).answer waits _

end World.Alike

/-- A lenient read of a name that its module will not settle gives undefined, whatever the policy. What
the policy decides is whether a warning is left. -/
theorem Demand.giveUp_get_of_remote (target : Target) (world : World σ) {name : String}
    (remote : target.remote = .ok name) :
    giveUp .get target world = (.answer .unit, world) ∨ ∃ fault,
      giveUp .get target world =
        (.answer .unit, world.record target.source (target.failure fault)) := by
  have gives : giveUp .get target world =
      deliver .get target world ((world.module target.source).unsettled name) := by
    rw [giveUp, remote]
    rfl
  rw [gives]
  unfold Module.unsettled
  split
  · exact .inr ⟨_, rfl⟩
  · exact .inl rfl

namespace World.Alike

variable {one other : World σ} {m : ModuleId} {stack stack' : List (Frame σ)} {demand : Demand}
  {after : After}

theorem giveUp (alike : one.Alike other) (waits : List.Forall₂ Frame.Alike stack stack')
    (target : Target) : (Machine.join stack (Demand.giveUp .get target one)).Alike
      (.join stack' (Demand.giveUp .get target other)) := by
  cases remote : target.remote with
  | error fault =>
    simp only [Demand.giveUp, remote]
    exact alike.deliver waits target (.error fault)
  | ok name =>
    have leftmost : ∃ later : World σ, later.Alike other ∧
        Demand.giveUp .get target one = (.answer .unit, later) := by
      rcases Demand.giveUp_get_of_remote target one remote with silent | ⟨fault, warned⟩
      · exact ⟨one, alike, silent⟩
      · exact ⟨_, alike.warn_left _ (target.warns_failure fault), warned⟩
    obtain ⟨later, still, same⟩ := leftmost
    rw [same]
    rcases Demand.giveUp_get_of_remote target other remote with silent | ⟨fault, warned⟩
    · rw [silent]
      exact still.answer waits .unit
    · rw [warned]
      exact (still.warn_right _ (target.warns_failure fault)).answer waits .unit

theorem peek (alike : one.Alike other) (m : ModuleId) (name : String) :
    (one.module m).peek name = (other.module m).peek name :=
  congrArg (Table.find? · name) (congrArg Observation.bindings (alike.module m).observation)

theorem lacks (alike : one.Alike other) (m : ModuleId) (name : String) :
    (one.module m).lacks name = (other.module m).lacks name := by
  have same := congrArg (Module.lacks · name) (alike.bare m)
  exact same

theorem awaited? (alike : one.Alike other) (demand : Demand) :
    demand.awaited? one = demand.awaited? other := by
  cases demand with
  | read how target =>
    simp only [Demand.awaited?]
    split
    · rw [alike.lacks]
    · rfl
  | forward m source pairs =>
    cases pairs with
    | nil => rfl
    | cons pair rest => simp only [Demand.awaited?, alike.lacks]
  | finish m => rfl
  | wildcards m =>
    have pending := congrArg Observation.pending (alike.module m).observation
    simp only [Module.observation] at pending
    simp only [Demand.awaited?, pending]

theorem react (alike : one.Alike other) (waits : List.Forall₂ Frame.Alike stack stack')
    (lenient : demand.Lenient) (progress : Progress) :
    (Machine.join stack (demand.react one progress)).Alike
      (.join stack' (demand.react other progress)) := by
  cases demand with
  | read how target =>
    cases lenient
    cases progress with
    | stepped => exact ⟨.demand rfl, waits, alike⟩
    | failed fault => exact alike.deliver waits target (.error fault)
    | busy | idle | exhausted => exact alike.giveUp waits target
  | forward m source pairs =>
    cases progress with
    | stepped => exact ⟨.demand trivial, waits, alike⟩
    | failed fault => exact alike.answer waits _
    | busy | idle | exhausted =>
      cases pairs with
      | nil => exact alike.answer waits _
      | cons pair rest => exact ⟨.demand trivial, waits, alike.forward m source _ _ _⟩
  | finish m =>
    cases progress with
    | stepped => exact ⟨.demand trivial, waits, alike⟩
    | busy => exact (alike.record m _).answer waits _
    | failed | idle | exhausted => exact alike.answer waits _
  | wildcards m =>
    cases progress with
    | stepped => exact ⟨.demand trivial, waits, alike⟩
    | failed | busy | idle | exhausted => exact alike.answer waits _

theorem proceed (alike : one.Alike other) (waits : List.Forall₂ Frame.Alike stack stack')
    (lenient : demand.Lenient) : (Machine.join stack (demand.proceed one)).Alike
      (.join stack' (demand.proceed other)) := by
  cases demand with
  | read how target =>
    cases lenient
    simp only [Demand.proceed, alike.peek]
    split
    · split
      · exact alike.answer waits _
      · exact alike.giveUp waits target
    · exact alike.deliver waits target _
  | forward m source pairs =>
    cases pairs with
    | nil => exact alike.answer waits _
    | cons pair rest =>
      simp only [Demand.proceed, alike.peek]
      exact ⟨.demand trivial, waits, alike.forward m source _ _ _⟩
  | finish | wildcards => exact alike.answer waits _

end World.Alike

namespace World.Alike

variable {one other : World σ} {m : ModuleId} {stack stack' : List (Frame σ)} {demand : Demand}
  {after : After} {next next' : Outcome → Program σ}

theorem runHooks {queue queue' : List (Hook σ)} (alike : one.Alike other)
    (waits : List.Forall₂ Frame.Alike stack stack') (m : ModuleId) (lenient : after.Lenient)
    (hooks : List.Forall₂ Hook.Alike queue queue') :
    (Machine.runHooks m after stack one queue).Alike
      (Machine.runHooks m after stack' other queue') := by
  cases hooks with
  | nil =>
    cases after with
    | goOn demand => exact alike.react waits lenient .stepped
    | answer outcome => exact alike.answer waits outcome
  | cons head tail =>
    simp only [Machine.runHooks, head.ticket]
    exact ⟨.run (head.code m), .cons (.hooks lenient tail) waits, alike.record m _⟩

theorem load (alike : one.Alike other) (waits : List.Forall₂ Frame.Alike stack stack')
    (m : ModuleId) (lenient : after.Lenient) :
    (Machine.load m after stack one).Alike (Machine.load m after stack' other) := by
  have hooks := (alike.module m).hooks
  unfold Machine.load
  generalize (one.module m).hooks = queue at hooks ⊢
  generalize (other.module m).hooks = queue' at hooks ⊢
  cases hooks with
  | none => exact alike.runHooks waits m lenient .nil
  | some queued =>
    dsimp only
    rw [queued.length_eq]
    have loaded := alike.update m fun _ _ alike => alike.load
    exact (loaded.record m _).runHooks waits m lenient queued

theorem advance (alike : one.Alike other) (waits : List.Forall₂ Frame.Alike stack stack')
    (m : ModuleId) (lenient : demand.Lenient) :
    (Machine.advance demand m stack one).Alike (Machine.advance demand m stack' other) := by
  have held : (one.module m).held = (other.module m).held := by
    have same := congrArg Module.held (alike.bare m)
    exact same
  have steps := congrArg Observation.steps (alike.module m).observation
  simp only [Module.observation] at steps
  have readiness := (alike.module m).readiness
  unfold Machine.advance
  rw [held, steps, alike.label m]
  split
  · exact (alike.record m _).react waits lenient .busy
  · generalize (one.module m).slot.readiness = ready at readiness ⊢
    generalize (other.module m).slot.readiness = ready' at readiness ⊢
    cases readiness with
    | failed | idle | exhausted => exact alike.react waits lenient _
    | @ready body body' bodies =>
      have resumed := alike.update m fun _ _ alike => alike.resumed bodies
      dsimp only
      rw [bodies.verdict]
      exact ⟨.run (bodies.next m), .cons (.stepping lenient) waits, resumed.record m _⟩

theorem resumeFrame {frame frame' : Frame σ} (alike : one.Alike other)
    (waits : List.Forall₂ Frame.Alike stack stack') (frames : frame.Alike frame')
    (outcome : Outcome) : (Machine.resumeFrame stack one frame outcome).Alike
      (Machine.resumeFrame stack' other frame' outcome) := by
  have released (m : ModuleId) := alike.update m fun _ _ alike => alike.release
  cases frames with
  | caller follows => exact ⟨.run (follows outcome), waits, alike⟩
  | @stepping m verdict demand lenient =>
    have steps := congrArg Observation.steps (alike.module m).observation
    simp only [Module.observation] at steps
    cases outcome with
    | panicked message => exact (released m).answer waits _
    | failed cause =>
      have failed := alike.update m fun _ _ alike => alike.fail cause
      simp only [Machine.resumeFrame, alike.label m]
      exact (failed.record m _).react waits lenient _
    | returned value =>
      simp only [Machine.resumeFrame]
      split
      · exact (alike.update m fun _ _ alike => alike.yield).react waits lenient _
      · have completed := alike.update m fun _ _ alike => alike.complete
        rw [steps]
        exact (completed.record m _).load waits m lenient
  | @building m body body' bodies =>
    have attached := alike.update m fun _ _ alike => alike.attach bodies
    have wildcards := congrArg Observation.wildcards (alike.module m).observation
    simp only [Module.observation] at wildcards
    cases outcome with
    | panicked message => exact (released m).answer waits _
    | failed | returned =>
      simp only [Machine.resumeFrame, wildcards]
      exact ⟨.demand trivial, waits, attached.record m _⟩
  | @hooks m after queue queue' lenient queued =>
    cases outcome with
    | panicked message => exact alike.answer waits _
    | failed | returned => exact alike.runHooks waits m lenient queued

theorem commit (alike : one.Alike other) (waits : List.Forall₂ Frame.Alike stack stack')
    (m : ModuleId) (entries : List (String × Value))
    (follows : ∀ outcome, (next outcome).Alike (next' outcome)) :
    (Machine.commit m entries next stack one).Alike
      (Machine.commit m entries next' stack' other) := by
  have check : (one.module m).firstUndeclared? entries =
      (other.module m).firstUndeclared? entries := by
    have same := congrArg (Module.firstUndeclared? · entries) (alike.bare m)
    exact same
  have state := congrArg Observation.state (alike.module m).observation
  simp only [Module.observation] at state
  have settled := (alike.record m (.committed m (other.module m).state)).settleAll m entries
  have waiting := List.Forall₂.cons (Frame.Alike.caller follows) waits
  rw [Machine.commit_eq, Machine.commit_eq]
  rw [check, state, alike.label m]
  split
  · exact ⟨.run (follows _), waits, alike⟩
  · dsimp only
    split
    · exact settled.load waiting m trivial
    · exact settled.load waiting m trivial
    · exact ⟨.run (follows _), waits, settled⟩

theorem execute {factory factory' : Program σ} {body body' : Body σ} (alike : one.Alike other)
    (waits : List.Forall₂ Frame.Alike stack stack') (m : ModuleId)
    (made : factory.Alike factory') (bodies : body.Alike body')
    (follows : ∀ outcome, (next outcome).Alike (next' outcome)) :
    (Machine.execute m factory body next stack one).Alike
      (Machine.execute m factory' body' next' stack' other) := by
  have held := congrArg Module.held (alike.bare m)
  have state := congrArg (·.slot.state) (alike.bare m)
  simp only [Module.bare] at held state
  unfold Machine.execute
  rw [held, state, alike.label m]
  split
  · exact ⟨.run made, .cons (.building bodies) (.cons (.caller follows) waits),
      alike.update m fun _ _ alike => alike.hold⟩
  · exact ⟨.run (follows _), waits, alike⟩

theorem importer {hook hook' : ModuleId → Program σ} (alike : one.Alike other)
    (waits : List.Forall₂ Frame.Alike stack stack') (m : ModuleId)
    (hooked : ∀ m, (hook m).Alike (hook' m))
    (follows : ∀ outcome, (next outcome).Alike (next' outcome)) :
    (Machine.importer m hook next stack one).Alike
      (Machine.importer m hook' next' stack' other) := by
  have hooks := (alike.module m).hooks
  have tickets := congrArg Module.tickets (alike.bare m)
  simp only [Module.bare] at tickets
  have hooked : Hook.Alike ⟨(other.module m).tickets, hook⟩ ⟨(other.module m).tickets, hook'⟩ :=
    ⟨rfl, hooked⟩
  unfold Machine.importer World.enqueue
  rw [tickets]
  generalize (one.module m).hooks = queue at hooks ⊢
  generalize (other.module m).hooks = queue' at hooks ⊢
  cases hooks with
  | some queued =>
    have longer := List.rel_append queued (.cons hooked .nil)
    have registered := alike.update m fun _ _ alike => alike.register (.some longer)
    exact ⟨.run (follows _), waits, registered.record m _⟩
  | none =>
    have registered := alike.update m fun _ _ alike => alike.register .none
    exact registered.runHooks (.cons (.caller follows) waits) m trivial (.cons hooked .nil)

theorem call (alike : one.Alike other) (waits : List.Forall₂ Frame.Alike stack stack')
    (callee : Value) (arguments : List Value)
    (follows : ∀ outcome, (next outcome).Alike (next' outcome)) :
    (Machine.call callee arguments next stack one).Alike
      (Machine.call callee arguments next' stack' other) := by
  unfold Machine.call
  split
  · next name id =>
    have codes := forall₂_getElem? alike.functions id
    generalize one.functions[id]? = code at codes ⊢
    generalize other.functions[id]? = code' at codes ⊢
    cases codes with
    | some same => exact ⟨.run (same arguments), .cons (.caller fun _ => follows _) waits, alike⟩
    | none => exact ⟨.run (follows _), waits, alike⟩
  · exact ⟨.run (follows _), waits, alike⟩

theorem resume (alike : one.Alike other) (waits : List.Forall₂ Frame.Alike stack stack')
    (id : BodyId) (m : ModuleId) (follows : ∀ outcome, (next outcome).Alike (next' outcome)) :
    (Machine.resume id m next stack one).Alike (Machine.resume id m next' stack' other) := by
  have bodies := forall₂_getElem? alike.bodies id
  unfold Machine.resume
  generalize one.bodies[id]? = body at bodies ⊢
  generalize other.bodies[id]? = body' at bodies ⊢
  cases bodies with
  | none => exact ⟨.run (follows _), waits, alike⟩
  | @some body body' same =>
    have set := forall₂_modify alike.bodies (fun _ _ _ => same.advanced) id
    rw [← List.set_eq_modify, ← List.set_eq_modify] at set
    refine ⟨.run (same.next m), .cons (.caller fun outcome => ?_) waits,
      { alike with bodies := set }⟩
    dsimp only [Function.comp]
    rw [same.verdict]
    exact follows _

end World.Alike

namespace Machine.Alike

variable {one other : Machine σ}

theorem step (alike : one.Alike other) : one.step.Alike other.step := by
  obtain ⟨control, stack, world⟩ := one
  obtain ⟨control', stack', world'⟩ := other
  obtain ⟨works, waits, alike⟩ := alike
  have told {α : Type} {next next' : α → Program σ} {reply reply' : α}
      (follows : ∀ reply, (next reply).Alike (next' reply)) (same : reply = reply') :
      (next reply).Alike (next' reply') := by
    rw [← same]
    exact follows reply
  cases works with
  | @demand demand lenient =>
    simp only [Machine.step, Machine.stepDemand, alike.awaited? demand]
    split
    · exact alike.advance waits _ lenient
    · exact alike.proceed waits lenient
  | run programs =>
    cases programs with
    | done outcome =>
      cases waits with
      | nil => exact alike.answer .nil outcome
      | cons frames waits => exact alike.resumeFrame waits frames outcome
    | host follows =>
      have host := alike.host
      dsimp only at host
      simp only [Machine.step, Machine.stepProgram, host]
      exact ⟨.run (follows _), waits, { alike with host := rfl }⟩
    | @create names config config' _ _ same follows =>
      obtain ⟨identity, made⟩ := alike.create names same
      exact ⟨.run (told follows identity), waits, made⟩
    | act lenient follows =>
      obtain ⟨reply, made⟩ := alike.perform lenient
      exact ⟨.run (told follows reply), waits, made⟩
    | demand lenient follows => exact ⟨.demand lenient, .cons (.caller follows) waits, alike⟩
    | commit follows => exact alike.commit waits _ _ follows
    | execute made code follows => exact alike.execute waits _ made ⟨rfl, rfl, code⟩ follows
    | importer hooked follows => exact alike.importer waits _ hooked follows
    | function code follows =>
      have longer := List.rel_append alike.functions (.cons code .nil)
      have identity := alike.functions.length_eq
      simp only [Machine.step, Machine.stepProgram, World.define, identity]
      exact ⟨.run (follows _), waits, { alike with functions := longer }⟩
    | call follows => exact alike.call waits _ _ follows
    | @detach code code' ending _ _ codes follows =>
      have body : Body.Alike ⟨0, code, ending⟩ ⟨0, code', ending⟩ := ⟨rfl, rfl, codes⟩
      have longer := List.rel_append alike.bodies (.cons body .nil)
      have identity := alike.bodies.length_eq
      simp only [Machine.step, Machine.stepProgram, World.detach, identity]
      exact ⟨.run (follows _), waits, { alike with bodies := longer }⟩
    | resume follows => exact alike.resume waits _ _ follows
    | @remaining id _ _ follows =>
      have bodies := forall₂_getElem? alike.bodies id
      have left : (world.bodies[id]?).elim 0 Body.remaining =
          (world'.bodies[id]?).elim 0 Body.remaining := by
        generalize world.bodies[id]? = body at bodies ⊢
        generalize world'.bodies[id]? = body' at bodies ⊢
        cases bodies with
        | none => rfl
        | some same => exact same.remaining
      simp only [Machine.step, Machine.stepProgram, left]
      exact ⟨.run (follows _), waits, alike⟩

theorem after (alike : one.Alike other) (count : Nat) : (one.after count).Alike (other.after count) := by
  induction count with
  | zero => exact alike
  | succ count ih => exact ih.step

end Machine.Alike

end LiveBindings
