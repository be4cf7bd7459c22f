import LiveBindings.Proofs.Apart
import LiveBindings.Proofs.Statements

namespace LiveBindings

open Machine

variable {σ : Type} {allowed : Program σ → Prop}

/-- The frame hands a panic down. Only code that waits for a call can do something else about it. -/
def Frame.Hands (message : String) : Frame σ → Prop
  | .caller next => next (.panicked message) = .done (.panicked message)
  | _ => True

namespace World

variable {world : World σ} {m : ModuleId}

/-- The world after some modules were let go, one after another. -/
def released (world : World σ) (modules : List ModuleId) : World σ :=
  modules.foldl (·.update · Module.release) world

theorem congr_released {α : Type} (part : Module σ → α) (world : World σ)
    (modules : List ModuleId) (m : ModuleId) (keeps : ∀ module, part (.release module) = part module) :
    part ((world.released modules).module m) = part (world.module m) := by
  unfold released
  induction modules generalizing world with
  | nil => rfl
  | cons n rest ih => rw [List.foldl_cons, ih, congr_update part world n m _ keeps]

theorem length_released (world : World σ) (modules : List ModuleId) :
    (world.released modules).modules.length = world.modules.length := by
  unfold released
  induction modules generalizing world with
  | nil => rfl
  | cons n rest ih => rw [List.foldl_cons, ih, length_update]

theorem journal_released (world : World σ) (modules : List ModuleId) :
    (world.released modules).journal = world.journal := by
  unfold released
  induction modules generalizing world with
  | nil => rfl
  | cons n rest ih =>
    rw [List.foldl_cons, ih]
    rfl

theorem module_released_of_not_mem {modules : List ModuleId} (world : World σ)
    (outside : m ∉ modules) : (world.released modules).module m = world.module m := by
  unfold released
  induction modules generalizing world with
  | nil => rfl
  | cons n rest ih =>
    simp only [List.mem_cons, not_or] at outside
    rw [List.foldl_cons, ih _ outside.2, module_update_of_ne world outside.1]

theorem module_released {modules : List ModuleId} (made : m ∈ world) (inside : m ∈ modules) :
    (world.released modules).module m = (world.module m).release := by
  induction modules generalizing world with
  | nil => cases inside
  | cons n rest ih =>
    have still : m ∈ world.update n Module.release := by rwa [mem_iff, length_update]
    have rest_of (member : m ∈ rest) : (world.released (n :: rest)).module m =
        ((world.update n Module.release).module m).release := ih still member
    by_cases here : m = n
    · subst here
      by_cases again : m ∈ rest
      · rw [rest_of again, module_update_self _ made]
        rfl
      · exact (module_released_of_not_mem _ again).trans (module_update_self _ made)
    · rw [rest_of ((List.mem_cons.mp inside).resolve_left here), module_update_of_ne world here]

end World

/-- A panic comes down through frames that hand it on, and they let go of their modules. -/
theorem Machine.reaches_released {message : String} {frames below : List (Frame σ)}
    (world : World σ) (uncaught : ∀ frame ∈ frames, frame.Hands message) :
    Reaches ⟨.answer (.panicked message), frames ++ below, world⟩
      ⟨.answer (.panicked message), below, world.released (owners frames)⟩ := by
  induction frames generalizing world with
  | nil => exact .refl _
  | cons frame rest ih =>
    obtain ⟨hands, others⟩ := List.forall_mem_cons.mp uncaught
    refine .step ?_
    cases frame with
    | caller next =>
      have caught : next (.panicked message) = .done (.panicked message) := hands
      simp only [Control.answer, step, List.cons_append, stepProgram, resumeFrame, caught]
      exact ih world others
    | hooks m queue after => exact ih world others
    | building m body => exact ih (world.update m Module.release) others
    | stepping m verdict demand => exact ih (world.update m Module.release) others

theorem Body.next_after_ofStatements (statements : List (ModuleId → Program σ)) (count : Nat)
    (m : ModuleId) :
    ((ofStatements statements).after count).next m = Program.statements statements count m := by
  simp [ofStatements, after, next]

/-- A panic went through a step of a module whose body is a list of statements. After statements with
the given outcomes it was this one that had begun: it is used up, and the body goes on after it. -/
structure Interrupted (m : ModuleId) (statements : List (ModuleId → Program σ))
    (outcomes : List Outcome) (statement : ModuleId → Program σ) (turns : List (Turn σ))
    (world : World σ) : Prop where
  current : statements[outcomes.length]? = some statement
  began : passages m turns = ran m statements outcomes ++ [.began (statement m)]
  state : (world.module m).state = .suspended
  failure : (world.module m).slot.failure = none
  steps : (world.module m).steps = outcomes.length + 1
  body : (world.module m).slot.body = some ((Body.ofStatements statements).after (outcomes.length + 1))
  resumes : ∀ demand stack, (advance demand m stack world).control =
    .run (Program.statements statements (outcomes.length + 1) m)

/-- A panic went through the factory of a module, which can be given a body again. -/
structure Unbuilt (m : ModuleId) (world : World σ) : Prop where
  state : (world.module m).state = .pending
  slot : (world.module m).slot = .empty
  steps : (world.module m).steps = 0
  /-- A body is attached when its factory comes to an end without a panic. -/
  execute : ∀ factory code ending next stack outcome built,
    (Control.run factory).Ends (world.update m Module.hold) outcome built → outcome.Calm →
      ∃ attached, Reaches ⟨.run (.execute m factory code ending next), stack, world⟩
          ⟨.demand (.wildcards m), .caller next :: stack, attached⟩ ∧
        (attached.module m).life = ⟨⟨some ⟨0, code, ending⟩, .suspended, none⟩, false, 0⟩

/-- Attaching a body to a module that has none comes to the body's first wildcards, whatever the
factory does on the way. -/
theorem World.unbuilt_of_life {world : World σ} {m : ModuleId} (made : m ∈ world)
    (life : (world.module m).life = .fresh) : Unbuilt m world := by
  have free : (world.module m).held = false := congrArg Life.held life
  have slot : (world.module m).slot = .empty := congrArg Life.slot life
  refine ⟨?_, slot, congrArg Life.steps life, ?_⟩
  · rw [Module.state, free, slot]
    rfl
  · intro factory code ending next stack outcome built ends calm
    let held := world.update m Module.hold
    have still : m ∈ held := by rwa [mem_iff, length_update]
    have taken : held.module m = (world.module m).hold := module_update_self _ made
    have kept := ends.life_of_held still (by rw [taken]; rfl)
    rw [taken] at kept
    refine ⟨(built.update m (·.attach ⟨0, code, ending⟩)).record m
      (.executing m (built.module m).wildcards), ?_, ?_⟩
    · have begins : step ⟨.run (.execute m factory code ending next), stack, world⟩ =
          ⟨.run factory, .building m ⟨0, code, ending⟩ :: .caller next :: stack, held⟩ :=
        if_pos ⟨free, by rw [slot]; rfl⟩
      refine (Reaches.of_step begins).trans ((ends _).trans (.step ?_))
      cases outcome with
      | panicked message => exact absurd rfl (calm message)
      | failed cause => exact .refl _
      | returned value => exact .refl _
    · have inside := (ends []).grows.mem still
      have before : (built.module m).slot = .empty :=
        (Module.slot_of_life kept).trans slot
      have steps : (built.module m).steps = 0 :=
        (Module.steps_of_life kept).trans (congrArg Life.steps life)
      rw [module_record, module_update_self _ inside]
      show Life.mk { (built.module m).slot with body := _, state := _ } false
        (built.module m).steps = _
      rw [before, steps]
      rfl

/-- Where a run has come to when a panic is about to go through some frames, and the world that it
leaves for the code below them. -/
structure Machine.Unwinds (machine : Machine σ) (turns : List (Turn σ)) (message : String)
    (frames below : List (Frame σ)) (later : World σ) : Prop where
  reaches : machine.Reaches ⟨.answer (.panicked message), below, later⟩
  statements : ∀ m verdict demand statements, .stepping m verdict demand ∈ frames →
    .attached m (.ofStatements statements) ∈ turns →
      ∃ outcomes statement, Interrupted m statements outcomes statement turns later
  factories : ∀ m body, .building m body ∈ frames → Unbuilt m later
  hooks : ∀ m rest after, .hooks m rest after ∈ frames →
    (later.module m).isLoaded = true ∧ (later.module m).hooks = none ∧
      (later.module m).slot = (machine.world.module m).slot ∧
      (m ∉ owners frames → (later.module m).state = (machine.world.module m).state)
  /-- Names, values and merges are as they were, and so is the journal. -/
  names : ∀ m, (later.module m).surface = (machine.world.module m).surface
  journal : later.journal = machine.world.journal
  /-- A module is let go if a step or a factory of it was under way. Otherwise it is as it was. -/
  steps : ∀ m ∈ owners frames, later.module m = (machine.world.module m).release
  others : ∀ m, m ∉ owners frames → later.module m = machine.world.module m
  /-- A module that was not touched since the frames were empty is as it was then. -/
  untouched : ∀ (first : Machine σ) count m, first.after count = machine → first.stack = below →
    m ∈ first.world → (∀ i < count, ¬ (first.after i).Touches m) →
      later.module m = first.world.module m

namespace Run

variable {machine : Machine σ} {turns : List (Turn σ)} {m : ModuleId} {message : String}
  {frames below : List (Frame σ)}

theorem mem_of_owners (run : Run allowed machine turns) (inside : m ∈ owners machine.stack) :
    m ∈ machine.world ∧ (machine.world.module m).held = true := by
  rw [← owners_holding] at inside
  exact (run.orderly.held m).mp inside

/-- A step that a panic is about to go through runs one of the statements: the resumption after the
last one runs nothing that could panic. -/
theorem current_statement {verdict : Value → Step} {demand : Demand}
    {statements : List (ModuleId → Program σ)} (run : Run allowed machine turns)
    (panics : machine.control = .answer (.panicked message))
    (member : .stepping m verdict demand ∈ machine.stack)
    (attached : .attached m (.ofStatements statements) ∈ turns) :
    ∃ outcomes statement, statements[outcomes.length]? = some statement ∧
      passages m turns = ran m statements outcomes ++ [.began (statement m)] ∧
      (machine.world.module m).slot =
        ⟨some ((Body.ofStatements statements).after (outcomes.length + 1)), .suspended, none⟩ ∧
      (machine.world.module m).steps = outcomes.length + 1 := by
  have chronicle := run.chronicle m
  obtain ⟨made, only⟩ := run.bodies_of_attached attached
  have held := (run.mem_of_owners (mem_owners.mpr ⟨_, member, rfl⟩)).2
  cases run.fits member rfl with
  | stepping slot =>
    obtain ⟨first, outcomes, given, past, lasts, rfl, steps⟩ := chronicle.of_stepping slot held
    cases given.symm.trans only
    have enough := lasts.length_le
    rw [Body.course_ofStatements enough] at past
    rcases Nat.lt_or_eq_of_le enough with before | atEnd
    · have entry := List.getElem?_eq_getElem before
      rw [Body.next_ofStatements entry] at past
      exact ⟨outcomes, _, entry, past, slot, steps⟩
    · have code : ((Body.ofStatements statements).after outcomes.length).next m = .done .unit := by
        rw [atEnd, Body.next_ofStatements_length]
      have calm := (run.prompt m made _ _ held (congrArg Slot.body slot) code).1
      cases panics.symm.trans calm

end Run

/-- In every run, however steps, factories and hooks of modules are inside one another: a panic that
nothing on its way catches comes to the code below, and leaves a world in which everything can go on. -/
theorem panic_unwinds {machine : Machine σ} {turns : List (Turn σ)} {message : String}
    {frames below : List (Frame σ)} (run : Run allowed machine turns)
    (panics : machine.control = .answer (.panicked message))
    (stack : machine.stack = frames ++ below)
    (uncaught : ∀ frame ∈ frames, frame.Hands message) :
    machine.Unwinds turns message frames below (machine.world.released (owners frames)) := by
  have inStack {frame : Frame σ} (member : frame ∈ frames) : frame ∈ machine.stack := by
    rw [stack]
    exact List.mem_append_left below member
  have owners_eq : owners machine.stack = owners frames ++ owners below := by
    rw [stack, owners, List.filterMap_append]
    rfl
  have owned {m : ModuleId} (inside : m ∈ owners frames) : m ∈ machine.world :=
    (run.mem_of_owners (owners_eq ▸ List.mem_append_left _ inside)).1
  have letGo {m : ModuleId} (inside : m ∈ owners frames) :
      (machine.world.released (owners frames)).module m = (machine.world.module m).release :=
    World.module_released (owned inside) inside
  have same {m : ModuleId} (outside : m ∉ owners frames) :
      (machine.world.released (owners frames)).module m = machine.world.module m :=
    World.module_released_of_not_mem machine.world outside
  refine ⟨?_, ?_, ?_, ?_, ?_, World.journal_released .., fun m => letGo, fun m => same, ?_⟩
  · obtain ⟨control, whole, world⟩ := machine
    cases panics
    cases stack
    exact Machine.reaches_released world uncaught
  · intro m verdict demand statements member attached
    obtain ⟨outcomes, statement, current, began, slot, steps⟩ :=
      run.current_statement panics (inStack member) attached
    have inside : m ∈ owners frames := mem_owners.mpr ⟨_, member, rfl⟩
    refine ⟨outcomes, statement, current, began, ?_, ?_, ?_, ?_, fun demand stack => ?_⟩
    · rw [letGo inside]
      exact congrArg Slot.state slot
    · rw [letGo inside]
      exact congrArg Slot.failure slot
    · rw [letGo inside]
      exact steps
    · rw [letGo inside]
      exact congrArg Slot.body slot
    · have free : ((machine.world.released (owners frames)).module m).held = false := by
        rw [letGo inside]
        rfl
      have still : ((machine.world.released (owners frames)).module m).slot = _ :=
        (congrArg Module.slot (letGo inside)).trans slot
      rw [← Body.next_after_ofStatements]
      simp only [advance, free, still]
      rfl
  · intro m body member
    have inside : m ∈ owners frames := mem_owners.mpr ⟨_, member, rfl⟩
    refine World.unbuilt_of_life ?_ ?_
    · rw [World.mem_iff, World.length_released]
      exact owned inside
    · cases run.fits (inStack member) rfl with
      | building slot =>
        have shaped := (run.orderly.shaped m (owned inside)).of_pending
          (congrArg Slot.state slot)
        rw [letGo inside]
        show Life.mk (machine.world.module m).slot false (machine.world.module m).steps = _
        rw [shaped.1, shaped.2]
        rfl
  · intro m rest after member
    have loaded : ((machine.world.released (owners frames)).module m).isLoaded = true :=
      (World.congr_released Module.isLoaded _ _ m fun _ => rfl).trans
        (run.tended m rest after (inStack member))
    refine ⟨loaded, Option.isNone_iff_eq_none.mp loaded, ?_, fun outside => ?_⟩
    · exact World.congr_released Module.slot _ _ m fun _ => rfl
    · rw [same outside]
  · exact fun m => World.congr_released Module.surface _ _ m fun _ => rfl
  · rintro first count m rfl empty made apart
    obtain ⟨kept, inside⟩ := Machine.module_after made apart
    refine (same fun above => ?_).trans kept
    -- A module that nothing has touched is held below if anywhere, and no module is held twice.
    have distinct := run.orderly.distinct
    rw [owners_holding, owners_eq, List.nodup_append] at distinct
    have beneath := inside.mp (owners_eq ▸ List.mem_append_left _ above)
    rw [empty] at beneath
    exact distinct.2.2 m above m beneath rfl

/-- The first statement attaches a body to a module; the factory registers a hook of a module that has
loaded, and the hook reads from one that breaks its contract. -/
def breakingStatements (writer hooked built : ModuleId) : List (ModuleId → Code Unit Value) :=
  [fun _ => Code.executeStatements built (Code.importer hooked fun _ => Code.get writer "w") [],
    fun m => Code.settle m "x" .null]

/-- A panic goes through a hook, a factory and a step, and is caught outside them. There is a module that
has no part in it. -/
def nestedPanic : Program Unit :=
  Code.program do
    let reader ← Code.create [.named "x"] .standard
    let built ← Code.create [.named "y"] .standard
    let hooked ← Code.create [.named "z"] .standard
    let writer ← Code.create [.named "w"] .standard
    let _ ← Code.create [.named "v"] .standard
    let _ ← Code.commit hooked []
    let _ ← Code.executeStatements writer Code.unit [fun m => Code.settle m "typo" .undefined]
    let _ ← Code.executeStatements reader Code.unit (breakingStatements writer hooked built)
    let _ ← (Code.get reader "x").outcome
    Code.get reader "x"

/-- The machine whose read of the outer module is about to go through the two others. -/
def asking : Machine Unit := (Machine.start nestedPanic (.empty .standard ())).after 16

def panicking : Machine Unit := asking.after 7

theorem panic_unwinds_of_nestedPanic :
    let frames := panicking.stack.take 6
    let statements := (breakingStatements 3 2 1).map fun piece m => (piece m).program
    let turns := (Machine.start nestedPanic (.empty .standard ())).turns 16 ++ asking.turns 7
    panicking.stack = frames ++ asking.stack ∧
      (∃ verdict demand, .stepping 0 verdict demand ∈ frames) ∧ (∃ body, .building 1 body ∈ frames) ∧
      (∃ rest after, .hooks 2 rest after ∈ frames) ∧ .attached 0 (.ofStatements statements) ∈ turns ∧
      ∃ message later, panicking.control = .answer (.panicked message) ∧
        (∀ frame ∈ frames, frame.Hands message) ∧
        panicking.Unwinds turns message frames asking.stack later ∧
        (∃ outcomes statement, Interrupted 0 statements outcomes statement turns later) ∧
        Unbuilt 1 later := by
  intro frames statements turns
  have run : Run (fun _ => True) panicking turns :=
    ((Run.start .standard () trivial).after 16).after 7
  have stepping : .stepping 0 _ _ ∈ frames := List.mem_of_getElem? (i := 5) rfl
  have building : .building 1 _ ∈ frames := List.mem_of_getElem? (i := 3) rfl
  have hooks : .hooks 2 _ _ ∈ frames := List.mem_of_getElem? (i := 1) rfl
  have attached : .attached 0 (.ofStatements statements) ∈ turns :=
    List.mem_of_getElem? (i := 12) rfl
  have uncaught (message : String) : ∀ frame ∈ frames, frame.Hands message :=
    List.forall_mem_cons.mpr ⟨rfl, List.forall_mem_cons.mpr ⟨trivial,
      List.forall_mem_cons.mpr ⟨rfl, List.forall_mem_cons.mpr ⟨trivial,
        List.forall_mem_cons.mpr ⟨rfl, List.forall_mem_cons.mpr ⟨trivial, nofun⟩⟩⟩⟩⟩⟩
  obtain ⟨message, panics⟩ : ∃ message, panicking.control = .answer (.panicked message) :=
    ⟨_, rfl⟩
  have unwinds := panic_unwinds run panics rfl (uncaught message)
  exact ⟨rfl, ⟨_, _, stepping⟩, ⟨_, building⟩, ⟨_, _, hooks⟩, attached, message, _, panics,
    uncaught message, unwinds, unwinds.statements 0 _ _ _ stepping attached,
    unwinds.factories 1 _ building⟩

end LiveBindings
