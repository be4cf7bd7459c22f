import LiveBindings.Machine

namespace LiveBindings

variable {σ : Type}

/-- What a transition does to the bodies of modules. It is one of these at most. -/
inductive Turn (σ : Type)
  /-- Nothing. -/
  | quiet
  /-- A factory begins to make the body. -/
  | making (module : ModuleId)
  /-- The factory ended, and the body is attached. -/
  | attached (module : ModuleId) (body : Body σ)
  /-- The factory panicked. -/
  | dropped (module : ModuleId)
  /-- A resumption of the body begins. -/
  | began (module : ModuleId) (body : Body σ)
  /-- The resumption returned, and the body can be resumed again. -/
  | yielded (module : ModuleId) (value : Value)
  /-- The resumption returned, and the body ended. -/
  | completed (module : ModuleId) (value : Value)
  /-- The resumption failed. -/
  | failed (module : ModuleId) (cause : Fault)
  /-- The resumption panicked. -/
  | unwound (module : ModuleId) (message : String)

/-- What the life of a body leaves in its module. -/
structure Life (σ : Type) where
  /-- The slot of the body. -/
  slot : Slot σ
  /-- Whether the module is held. -/
  held : Bool
  /-- How many resumptions have begun. -/
  steps : Nat

/-- The life of a module that was given no body. -/
def Life.fresh : Life σ := ⟨.empty, false, 0⟩

/-- The part of a module that turns change. -/
def Module.life (module : Module σ) : Life σ := ⟨module.slot, module.held, module.steps⟩

theorem Module.slot_of_life {module other : Module σ} (same : module.life = other.life) :
    module.slot = other.slot := congrArg Life.slot same

theorem Module.held_of_life {module other : Module σ} (same : module.life = other.life) :
    module.held = other.held := congrArg Life.held same

theorem Module.steps_of_life {module other : Module σ} (same : module.life = other.life) :
    module.steps = other.steps := congrArg Life.steps same

theorem Module.state_of_free {module : Module σ} (free : module.held = false) :
    module.state = module.slot.state := by
  simp [state, free]

/-- A module that is not seen to be running is held by nobody. -/
theorem Module.free_of_state {module : Module σ} {state : State} (seen : module.state = state)
    (still : state ≠ .running) : module.held = false := by
  rw [← Bool.not_eq_true]
  intro held
  exact still (by simp [← seen, Module.state, held])

namespace Turn

def about? : Turn σ → Option ModuleId
  | .quiet => none
  | .making m | .attached m _ | .dropped m | .began m _ | .yielded m _ | .completed m _
  | .failed m _ | .unwound m _ => some m

/-- How the resumption that a turn ends has ended. -/
def outcome? : Turn σ → Option Outcome
  | .yielded _ value | .completed _ value => some (.returned value)
  | .failed _ cause => some (.failed cause)
  | .unwound _ message => some (.panicked message)
  | .quiet | .making _ | .attached .. | .dropped _ | .began .. => none

/-- What a turn makes of the module that it is about. -/
def change : Turn σ → Module σ → Module σ
  | .quiet => id
  | .making _ => .hold
  | .attached _ body => (·.attach body)
  | .dropped _ | .unwound .. => .release
  | .began _ body => (·.resumed body)
  | .yielded .. => .yield
  | .completed .. => .complete
  | .failed _ cause => (·.fail cause)

@[simp]
theorem isLoaded_change (turn : Turn σ) (module : Module σ) :
    (turn.change module).isLoaded = module.isLoaded := by
  cases turn <;> rfl

theorem completed_of_change {turn : Turn σ} {module : Module σ}
    (before : module.slot.state.isFinal = false)
    (after : (turn.change module).slot.state = .completed) :
    ∃ m value, turn = .completed m value := by
  cases turn with
  | completed m value => exact ⟨m, value, rfl⟩
  | attached | yielded | failed => cases after
  | quiet | making | dropped | began | unwound =>
    rw [show module.slot.state = .completed from after] at before
    cases before

def apply (turn : Turn σ) (world : World σ) : World σ :=
  turn.about?.elim world (world.update · turn.change)

/-- A body is made, or resumed, only of a module that nobody holds and whose slot allows it. -/
def Enabled (world : World σ) : Turn σ → Prop
  | .making m => (world.module m).held = false ∧ (world.module m).slot.state = .pending
  | .began m body => (world.module m).held = false ∧ (world.module m).slot.readiness = .ready body
  | _ => True

/-- How a turn changes the frames that hold modules: it adds one or takes the innermost one away. -/
inductive Moves : Turn σ → List (Frame σ) → List (Frame σ) → Prop
  | quiet {frames} : Moves .quiet frames frames
  | making {m body frames} : Moves (.making m) frames (.building m body :: frames)
  | attached {m body frames} : Moves (.attached m body) (.building m body :: frames) frames
  | dropped {m body frames} : Moves (.dropped m) (.building m body :: frames) frames
  | began {m body demand frames} :
      Moves (.began m body) frames (.stepping m body.verdict demand :: frames)
  | yielded {m verdict demand value frames} : verdict value = .yield →
      Moves (.yielded m value) (.stepping m verdict demand :: frames) frames
  | completed {m verdict demand value frames} : verdict value = .complete →
      Moves (.completed m value) (.stepping m verdict demand :: frames) frames
  | failed {m verdict demand cause frames} :
      Moves (.failed m cause) (.stepping m verdict demand :: frames) frames
  | unwound {m verdict demand message frames} :
      Moves (.unwound m message) (.stepping m verdict demand :: frames) frames

end Turn

namespace Frame

def owner? : Frame σ → Option ModuleId
  | .stepping m _ _ | .building m _ => some m
  | .caller _ | .hooks .. => none

/-- The turn that an outcome brings about when a frame receives it. -/
def turn : Frame σ → Outcome → Turn σ
  | .stepping m verdict _, .returned value =>
    match verdict value with
    | .yield => .yielded m value
    | .complete => .completed m value
  | .stepping m _ _, .failed cause => .failed m cause
  | .stepping m _ _, .panicked message => .unwound m message
  | .building m _, .panicked _ => .dropped m
  | .building m body, _ => .attached m body
  | .caller _, _ | .hooks .., _ => .quiet

end Frame

theorem Frame.turn_ne_began (frame : Frame σ) (outcome : Outcome) (m : ModuleId) (body : Body σ) :
    frame.turn outcome ≠ .began m body := by
  intro began
  unfold Frame.turn at began
  split at began
  · split at began <;> cases began
  all_goals cases began

theorem Frame.about?_turn {frame : Frame σ} {m : ModuleId} (owner : frame.owner? = some m)
    (outcome : Outcome) : (frame.turn outcome).about? = some m := by
  cases frame with
  | caller next => cases owner
  | hooks n rest after => cases owner
  | building n body => cases outcome <;> exact owner
  | stepping n verdict demand =>
    cases outcome with
    | returned value =>
      simp only [Frame.turn]
      split <;> exact owner
    | failed cause => exact owner
    | panicked message => exact owner

theorem Frame.outcome?_turn (frame : Frame σ) {result outcome : Outcome}
    (ended : (frame.turn result).outcome? = some outcome) :
    result = outcome ∧ frame.owner? = (frame.turn result).about? := by
  cases frame with
  | caller next => cases ended
  | hooks m rest after => cases ended
  | building m body => cases result <;> cases ended
  | stepping m verdict demand =>
    cases result with
    | failed cause => exact ⟨Option.some.inj ended, rfl⟩
    | panicked message => exact ⟨Option.some.inj ended, rfl⟩
    | returned value =>
      simp only [Frame.turn] at ended ⊢
      cases report : verdict value with
      | yield =>
        simp only [report] at ended
        exact ⟨Option.some.inj ended, rfl⟩
      | complete =>
        simp only [report] at ended
        exact ⟨Option.some.inj ended, rfl⟩

def holding (stack : List (Frame σ)) : List (Frame σ) := stack.filter (·.owner?.isSome)

/-- The turn that comes of asking a module to go on. -/
def World.turn (world : World σ) (m : ModuleId) : Turn σ :=
  if (world.module m).held then .quiet
  else
    match (world.module m).slot.readiness with
    | .ready body => .began m body
    | _ => .quiet

def Machine.turn (machine : Machine σ) : Turn σ :=
  match machine.control, machine.stack with
  | .run (.done outcome), frame :: _ => frame.turn outcome
  | .run (.execute m ..), _ =>
    if (machine.world.module m).held = false ∧ (machine.world.module m).slot.state = .pending then
      .making m
    else .quiet
  | .demand demand, _ => (demand.awaited? machine.world).elim .quiet machine.world.turn
  | _, _ => .quiet

end LiveBindings
