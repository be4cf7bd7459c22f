import LiveBindings.Proofs.Replay

namespace LiveBindings

open Machine

variable {σ : Type}

namespace Event

/-- The number of the hook of a module that an event tells to begin. -/
def started? (m : ModuleId) : Event → Option Nat
  | .hookStarted n ticket => if n = m then some ticket else none
  | _ => none

/-- The number of hooks that a module loaded with, if the event tells that it loaded. -/
def loads? (m : ModuleId) : Event → Option Nat
  | .hooksRun n count => if n = m then some count else none
  | _ => none

end Event

/-- What a world tells of the hooks of a module. -/
structure Account (σ : Type) where
  /-- The queue, until the module has loaded. -/
  hooks : Option (List (Hook σ))
  /-- How many hooks were registered. -/
  tickets : Nat
  /-- With how many hooks the module loaded, each time that it did. -/
  loads : List Nat
  /-- The numbers of the hooks that have begun to run, the earliest first. -/
  started : List Nat

/-- What became of the hooks of a module. -/
structure Tally (σ : Type) extends Account σ where
  /-- For each hook that is under way, the innermost first, those that wait on the stack for it to end. -/
  underway : List (List (Hook σ))

namespace Tally

/-- The hooks that wait on the stack for others to end, the next one first. -/
def waiting (tally : Tally σ) : List (Hook σ) := tally.underway.flatten

/-- The tally after hooks were handed over to be run: the first one begins, and the others wait. -/
def run (tally : Tally σ) (hooks : List (Hook σ)) : Tally σ :=
  { tally with
    started := tally.started ++ (hooks.take 1).map Hook.ticket
    underway := hooks.tail?.toList ++ tally.underway }

theorem run_nil (tally : Tally σ) : tally.run [] = tally := by
  simp [run]

theorem length_underway_run (tally : Tally σ) (hooks : List (Hook σ)) :
    (tally.run hooks).underway.length + tally.started.length =
      tally.underway.length + (tally.run hooks).started.length := by
  cases hooks with
  | nil => rw [run_nil]
  | cons hook rest =>
    simp only [run, List.tail?_cons, Option.toList_some, List.singleton_append, List.length_cons,
      List.length_append, List.length_map, List.take_succ_cons, List.take_zero, List.length_nil]
    omega

theorem mem_waiting_run {tally : Tally σ} {hooks : List (Hook σ)} {hook : Hook σ}
    (member : hook ∈ (tally.run hooks).waiting) : hook ∈ hooks ∨ hook ∈ tally.waiting := by
  cases hooks with
  | nil => exact .inr member
  | cons first rest =>
    have parts : (tally.run (first :: rest)).waiting = rest ++ tally.waiting := rfl
    rw [parts, List.mem_append] at member
    exact member.imp_left (List.mem_cons_of_mem first)

def enqueue (tally : Tally σ) (queue : List (Hook σ)) (code : ModuleId → Program σ) : Tally σ :=
  { tally with hooks := some (queue ++ [⟨tally.tickets, code⟩]), tickets := tally.tickets + 1 }

/-- The tally after the module has loaded with the given queue, none of which has begun yet. -/
def load (tally : Tally σ) (queue : List (Hook σ)) : Tally σ :=
  { tally with hooks := none, loads := tally.loads ++ [queue.length] }

/-- The tally after a hook was registered that needs not wait. -/
def register (tally : Tally σ) : Tally σ := { tally with tickets := tally.tickets + 1 }

end Tally

namespace World

def account (world : World σ) (m : ModuleId) : Account σ where
  hooks := (world.module m).hooks
  tickets := (world.module m).tickets
  loads := (world.journal.filterMap (·.loads? m)).reverse
  started := (world.journal.filterMap (·.started? m)).reverse

variable {before after world : World σ} {m n : ModuleId} {event : Event}

theorem update_of_not_mem (missing : m ∉ world) (change : Module σ → Module σ) :
    world.update m change = world := by
  unfold update
  rw [List.modify_eq_self (Nat.not_lt.mp missing)]

theorem account_congr (hooks : (after.module m).hooks = (before.module m).hooks)
    (tickets : (after.module m).tickets = (before.module m).tickets)
    (journal : after.journal = before.journal) : after.account m = before.account m := by
  simp only [account, hooks, tickets, journal]

theorem account_log (begins : event.started? m = none) (loads : event.loads? m = none)
    (world : World σ) : (world.log event).account m = world.account m := by
  have journal : (world.log event).journal = event :: world.journal := rfl
  simp only [account, module_log, journal, List.filterMap_cons, begins, loads]

theorem account_record (begins : event.started? m = none) (loads : event.loads? m = none)
    (world : World σ) (n : ModuleId) : (world.record n event).account m = world.account m := by
  unfold record
  split
  · exact account_log begins loads world
  · rfl

theorem account_update {change : Module σ → Module σ}
    (hooks : ∀ module, (change module).hooks = module.hooks)
    (tickets : ∀ module, (change module).tickets = module.tickets) (world : World σ) (n : ModuleId) :
    (world.update n change).account m = world.account m :=
  account_congr (congr_update Module.hooks world n m change hooks)
    (congr_update Module.tickets world n m change tickets) rfl

theorem account_update_of_core {change : Module σ → Module σ}
    (core : ∀ module, (change module).core = module.core) (world : World σ) (n : ModuleId) :
    (world.update n change).account m = world.account m := by
  refine account_update (fun module => ?_) (fun module => ?_) world n
  · have same := congrArg Module.hooks (core module)
    exact same
  · have same := congrArg Module.tickets (core module)
    exact same

theorem account_update_of_ne (differs : m ≠ n) (change : Module σ → Module σ) (world : World σ) :
    (world.update n change).account m = world.account m :=
  account_congr (congrArg Module.hooks (module_update_of_ne world differs change))
    (congrArg Module.tickets (module_update_of_ne world differs change)) rfl

theorem account_turn (turn : Turn σ) (world : World σ) (n : ModuleId) :
    (world.update n turn.change).account m = world.account m :=
  account_update (fun _ => by cases turn <;> rfl) (fun _ => by cases turn <;> rfl) world n

theorem account_enqueue (made : m ∈ world) (queue : List (Hook σ)) (code : ModuleId → Program σ) :
    (world.enqueue m queue code).account m = { world.account m with
      hooks := some (queue ++ [⟨(world.module m).tickets, code⟩])
      tickets := (world.module m).tickets + 1 } := by
  rw [enqueue, account_record rfl rfl]
  simp only [account, module_update_self _ made, Module.register]
  rfl

theorem account_enqueue_of_ne (world : World σ) (differs : m ≠ n) (queue : List (Hook σ))
    (code : ModuleId → Program σ) : (world.enqueue n queue code).account m = world.account m := by
  rw [enqueue, account_record rfl rfl, account_update_of_ne differs]

theorem enqueue_of_not_mem (missing : m ∉ world) (queue : List (Hook σ))
    (code : ModuleId → Program σ) : world.enqueue m queue code = world := by
  rw [enqueue, update_of_not_mem missing]
  exact if_neg missing

/-- A module that is made has no hooks, and it had none before. -/
theorem account_create (world : World σ) (names : List ExportName) (config : Config) :
    (world.create names config).2.account m = world.account m := by
  have part {α : Type} (part : Module σ → α)
      (fresh : part (.fresh names config) = part .absent) :
      part ((world.create names config).2.module m) = part (world.module m) := by
    rw [module_create]
    split
    · next last =>
      have missing : m ∉ world := Nat.not_lt.mpr (Nat.le_of_eq last.symm)
      rw [fresh, module_of_not_mem missing]
    · rfl
  exact account_congr (part Module.hooks rfl) (part Module.tickets rfl) rfl

theorem account_prepare (world : World σ) (id : String) (names : List ExportName) :
    (world.prepare id names).2.account m = world.account m := by
  unfold prepare
  split
  · rfl
  · have made := account_create (m := m) (world.log (.prepared id)) names
      { world.template with label := some id }
    exact made.trans (account_log rfl rfl world)

theorem account_bind (world : World σ) (n : ModuleId) (name : String) (value : Value) :
    ((world.record n (.settled n name value)).update n (·.bind name value)).account m =
      world.account m :=
  (account_update_of_core (fun _ => Module.core_bind ..) _ n).trans
    (account_record rfl rfl world n)

theorem account_settleAll (world : World σ) (n : ModuleId) (entries : List (String × Value)) :
    (world.settleAll n entries).account m = world.account m := by
  unfold settleAll
  induction entries generalizing world with
  | nil => rfl
  | cons entry rest ih => rw [List.foldl_cons, ih, account_bind]

theorem account_merge (world : World σ) (n source : ModuleId) :
    (world.merge n source).account m = world.account m := by
  simp only [merge]
  rw [account_record rfl rfl, account_update_of_core]
  exact fun module => by simp

theorem account_forward (world : World σ) (n source : ModuleId) (localName remoteName : String)
    (value : Option Value) :
    (world.forward n source localName remoteName value).account m = world.account m := by
  rw [forward, account_update_of_core fun module => Module.core_define module localName value,
    account_record rfl rfl]

end World

theorem Action.account_perform {m : ModuleId} (world : World σ) (action : Action) :
    (action.perform world).2.account m = world.account m := by
  cases action with
  | create names config => exact world.account_create names config
  | settle n name value =>
    simp only [perform, World.settle]
    split
    · exact world.account_bind n name value
    · rfl
  | merge n source => exact world.account_merge n source
  | prepare id names => exact world.account_prepare id names
  | note label values => exact World.account_log rfl rfl world
  | _ => rfl

namespace Demand

variable {m : ModuleId}

theorem account_deliver (how : Reading) (target : Target) (world : World σ)
    (result : Except Fault Value) :
    (deliver how target world result).2.account m = world.account m := by
  unfold deliver
  split
  · rfl
  · split
    · rfl
    · split
      · rfl
      · cases target <;> exact World.account_record rfl rfl world _

theorem account_react (world : World σ) (demand : Demand) (progress : Progress) :
    (demand.react world progress).2.account m = world.account m := by
  unfold react
  split
  · rfl
  · exact account_deliver ..
  · exact account_deliver ..
  · rfl
  · rfl
  · exact world.account_forward ..
  · rfl
  · exact World.account_record rfl rfl world _
  · rfl
  · rfl
  · rfl

theorem account_proceed (world : World σ) (demand : Demand) :
    (demand.proceed world).2.account m = world.account m := by
  unfold proceed
  split
  · split
    · split
      · rfl
      · exact account_deliver ..
    · exact account_deliver ..
  · rfl
  · exact world.account_forward ..
  · rfl
  · rfl

end Demand

/-- The hooks that wait in a frame for one of the module that is under way. -/
def Frame.rest? (m : ModuleId) : Frame σ → Option (List (Hook σ))
  | .hooks n rest _ => if n = m then some rest else none
  | _ => none

/-- For each hook of a module that is under way, the innermost first, those that wait for it. -/
def underway (m : ModuleId) (stack : List (Frame σ)) : List (List (Hook σ)) :=
  stack.filterMap (·.rest? m)

theorem underway_hooks (m : ModuleId) (rest : List (Hook σ)) (after : After)
    (stack : List (Frame σ)) :
    underway m (.hooks m rest after :: stack) = rest :: underway m stack :=
  List.filterMap_cons_some (if_pos rfl)

theorem underway_hooks_of_ne {m n : ModuleId} (differs : n ≠ m) (rest : List (Hook σ))
    (after : After) (stack : List (Frame σ)) :
    underway m (.hooks n rest after :: stack) = underway m stack :=
  List.filterMap_cons_none (if_neg differs)

/-- The tally that a world and a stack make up. -/
def World.tally (world : World σ) (m : ModuleId) (stack : List (Frame σ)) : Tally σ :=
  ⟨world.account m, underway m stack⟩

theorem World.tally_congr {before after : World σ} {m : ModuleId}
    (same : after.account m = before.account m) (stack : List (Frame σ)) :
    after.tally m stack = before.tally m stack := congrArg (Tally.mk · (underway m stack)) same

namespace Machine

def tally (machine : Machine σ) (m : ModuleId) : Tally σ := machine.world.tally m machine.stack

/-- The transition makes a module load: its body ends, or a commit passes while there is no body. -/
inductive Loading (m : ModuleId) (machine : Machine σ) : Prop
  | completed {value : Value} : machine.turn = .completed m value → Loading m machine
  | committed {entries : List (String × Value)} {next : Outcome → Program σ} :
      machine.control = .run (.commit m entries next) →
      (machine.world.module m).firstUndeclared? entries = none →
      (machine.world.module m).state = .pending ∨ (machine.world.module m).state = .completed →
      Loading m machine

/-- A panic is about to go through a hook of a module that others wait for. -/
def Loses (m : ModuleId) (machine : Machine σ) : Prop :=
  ∃ message hook rest after below, machine.control = .answer (.panicked message) ∧
    machine.stack = .hooks m (hook :: rest) after :: below

/-- A hook of a module has come to its end, and its outcome is about to be handed to its frame. -/
def Leaves (m : ModuleId) (machine : Machine σ) : Prop :=
  ∃ outcome rest after below, machine.control = .answer outcome ∧
    machine.stack = .hooks m rest after :: below

/-- The transition runs the first of some hooks of a module, if there is one. -/
def Begins (m : ModuleId) (machine : Machine σ) (hooks : List (Hook σ)) : Prop :=
  ∀ hook rest, hooks = hook :: rest → machine.step.control = .run (hook.code m)

/-- What a transition does to the hooks of a module. -/
inductive Stirs (m : ModuleId) (machine : Machine σ) (tally : Tally σ) : Tally σ → Prop
  | still : Stirs m machine tally tally
  | queued {queue : List (Hook σ)} (code : ModuleId → Program σ) : tally.hooks = some queue →
      Stirs m machine tally (tally.enqueue queue code)
  | called (code : ModuleId → Program σ) : tally.hooks = none →
      machine.Begins m [⟨tally.tickets, code⟩] →
      Stirs m machine tally (tally.register.run [⟨tally.tickets, code⟩])
  | loaded {queue : List (Hook σ)} : tally.hooks = some queue → machine.Loading m →
      machine.Begins m queue → Stirs m machine tally ((tally.load queue).run queue)
  | resumed {rest : List (Hook σ)} {others : List (List (Hook σ))} : machine.Leaves m →
      tally.underway = rest :: others → machine.Begins m rest →
      Stirs m machine tally (({ tally with underway := others } : Tally σ).run rest)
  | unwound {rest : List (Hook σ)} {others : List (List (Hook σ))} : machine.Leaves m →
      tally.underway = rest :: others → (rest ≠ [] → machine.Loses m) →
      Stirs m machine tally { tally with underway := others }

variable {world : World σ} {stack : List (Frame σ)} {m n : ModuleId}

theorem tally_join {result : Control σ × World σ} (same : result.2.account m = world.account m) :
    (join stack result).tally m = world.tally m stack := World.tally_congr same stack

theorem tally_runHooks_nil (after : After) :
    (runHooks n after stack world []).tally m = world.tally m stack := by
  cases after with
  | goOn demand => exact tally_join (demand.account_react world .stepped)
  | answer outcome => rfl

theorem tally_runHooks (after : After) {hooks : List (Hook σ)} (made : hooks ≠ [] → m ∈ world) :
    (runHooks m after stack world hooks).tally m = (world.tally m stack).run hooks := by
  cases hooks with
  | nil => rw [Tally.run_nil, tally_runHooks_nil]
  | cons hook rest =>
    have here := made (List.cons_ne_nil _ _)
    have journal : (world.log (.hookStarted m hook.ticket)).journal =
        .hookStarted m hook.ticket :: world.journal := rfl
    simp [runHooks, tally, World.tally, Tally.run, World.account, underway_hooks,
      World.record_of_mem here, journal, Event.started?, Event.loads?]

theorem tally_runHooks_of_ne (differs : n ≠ m) (after : After) (hooks : List (Hook σ)) :
    (runHooks n after stack world hooks).tally m = world.tally m stack := by
  cases hooks with
  | nil => exact tally_runHooks_nil after
  | cons hook rest =>
    have silent : Event.started? m (.hookStarted n hook.ticket) = none := if_neg differs
    have same := World.account_record silent rfl world n
    simp [runHooks, tally, World.tally, underway_hooks_of_ne differs, same]

/-- A module that loads has its hooks taken from the queue to the stack. -/
theorem tally_load (after : After) : (load m after stack world).tally m = world.tally m stack ∨
    ∃ queue, (world.module m).hooks = some queue ∧
      (load m after stack world).tally m = ((world.tally m stack).load queue).run queue := by
  unfold load
  split
  · exact .inl (tally_runHooks_nil after)
  · next queue queued =>
    by_cases made : m ∈ world
    · refine .inr ⟨queue, queued, ?_⟩
      have still : m ∈ world.update m Module.load := by rwa [World.mem_iff, World.length_update]
      have inside : m ∈ (world.update m Module.load).record m (.hooksRun m queue.length) := by
        rwa [World.mem_iff, World.modules_record]
      have journal : ((world.update m Module.load).log (.hooksRun m queue.length)).journal =
          .hooksRun m queue.length :: world.journal := rfl
      rw [tally_runHooks after fun _ => inside]
      simp [World.tally, Tally.load, World.account, World.record_of_mem still,
        World.module_update_self _ made, Module.load, journal, Event.started?, Event.loads?]
    · have none : queue = [] := Classical.byContradiction fun some =>
        made (World.mem_of_hooks queued some)
      have skipped : world.record m (.hooksRun m queue.length) = world := if_neg made
      rw [World.update_of_not_mem made, skipped, none, tally_runHooks_nil]
      exact .inl rfl

theorem tally_load_of_ne (differs : n ≠ m) (after : After) :
    (load n after stack world).tally m = world.tally m stack := by
  unfold load
  split
  · exact tally_runHooks_nil after
  · next queue _ =>
    have silent : Event.loads? m (.hooksRun n queue.length) = none := if_neg differs
    have same := (World.account_record rfl silent (world.update n Module.load) n).trans
      (World.account_update_of_ne (Ne.symm differs) Module.load world)
    rw [tally_runHooks_of_ne differs, World.tally, same]
    rfl

variable {machine : Machine σ}

theorem Stirs.of_eq {tally later : Tally σ} (same : later = tally) :
    machine.Stirs m tally later := by
  rw [same]
  exact .still

theorem begins_of_runHooks {after : After} {hooks : List (Hook σ)}
    (next : machine.step = runHooks m after stack world hooks) : machine.Begins m hooks := by
  rintro hook rest rfl
  rw [next]
  rfl

/-- Whatever was written before a module loads, the loading is all that there is to tell. -/
theorem stirs_load {settled : World σ} {after : After}
    (next : machine.step = load n after stack settled) (same : settled.account m = world.account m)
    (loading : n = m → machine.Loading m) :
    machine.Stirs m (world.tally m stack) (machine.step.tally m) := by
  have kept := World.tally_congr same stack
  rw [next]
  by_cases here : n = m
  · subst here
    rcases tally_load after with quiet | ⟨queue, queued, tells⟩
    · exact .of_eq (quiet.trans kept)
    · rw [tells, kept]
      have hooks : (settled.module n).hooks = (world.module n).hooks :=
        congrArg Account.hooks same
      simp only [load, queued] at next
      exact .loaded (hooks.symm.trans queued) (loading rfl) (begins_of_runHooks next)
  · exact .of_eq ((tally_load_of_ne here after).trans kept)

theorem stirs_hooks {rest : List (Hook σ)} {after : After} (outcome : Outcome)
    (tended : Tended ⟨.answer outcome, .hooks n rest after :: stack, world⟩) :
    Stirs m ⟨.answer outcome, .hooks n rest after :: stack, world⟩
      (world.tally m (.hooks n rest after :: stack))
      ((resumeFrame stack world (.hooks n rest after) outcome).tally m) := by
  by_cases here : n = m
  · subst here
    have above := underway_hooks n rest after stack
    have leaves : Leaves n ⟨.answer outcome, .hooks n rest after :: stack, world⟩ :=
      ⟨outcome, rest, after, stack, rfl, rfl⟩
    have made : n ∈ world := World.mem_of_isLoaded (tended n rest after List.mem_cons_self)
    cases outcome with
    | panicked message =>
      refine .unwound leaves above fun some => ?_
      obtain ⟨hook, queue, rfl⟩ := List.exists_cons_of_ne_nil some
      exact ⟨message, hook, queue, after, stack, rfl, rfl⟩
    | failed cause =>
      simp only [resumeFrame]
      rw [tally_runHooks after fun _ => made]
      exact .resumed leaves above (begins_of_runHooks rfl)
    | returned value =>
      simp only [resumeFrame]
      rw [tally_runHooks after fun _ => made]
      exact .resumed leaves above (begins_of_runHooks rfl)
  · have above := underway_hooks_of_ne here rest after stack
    have same : world.tally m stack = world.tally m (.hooks n rest after :: stack) :=
      congrArg (Tally.mk _) above.symm
    cases outcome with
    | panicked message => exact .of_eq same
    | failed cause | returned value => exact .of_eq ((tally_runHooks_of_ne here after rest).trans same)

theorem stirs_resumeFrame (frame : Frame σ) (outcome : Outcome)
    (tended : Tended ⟨.answer outcome, frame :: stack, world⟩) :
    Stirs m ⟨.answer outcome, frame :: stack, world⟩ (world.tally m (frame :: stack))
      ((resumeFrame stack world frame outcome).tally m) := by
  cases frame with
  | caller next => exact .still
  | hooks n rest after => exact stirs_hooks outcome tended
  | building n body =>
    have attached : ((world.update n (·.attach body)).record n
        (.executing n (world.module n).wildcards)).account m = world.account m :=
      (World.account_record rfl rfl _ n).trans (World.account_turn (.attached n body) world n)
    cases outcome with
    | panicked message => exact .of_eq (World.tally_congr (World.account_turn (.dropped n) world n) stack)
    | failed cause => exact .of_eq (World.tally_congr attached stack)
    | returned value => exact .of_eq (World.tally_congr attached stack)
  | stepping n verdict demand =>
    cases outcome with
    | panicked message =>
      exact .of_eq (World.tally_congr (World.account_turn (.unwound n message) world n) stack)
    | failed cause =>
      have failed : ((world.update n (·.fail cause)).record n (.bodyFailed n cause)).account m =
          world.account m :=
        (World.account_record rfl rfl _ n).trans (World.account_turn (.failed n cause) world n)
      exact .of_eq (tally_join ((Demand.account_react ..).trans failed))
    | returned value =>
      cases report : verdict value with
      | yield =>
        have yielded := World.account_turn (m := m) (.yielded n value) world n
        simp only [resumeFrame, report]
        exact .of_eq (tally_join ((Demand.account_react ..).trans yielded))
      | complete =>
        let machine : Machine σ := ⟨.answer (.returned value), .stepping n verdict demand :: stack, world⟩
        let ended := (world.update n Module.complete).record n (.completed n (world.module n).steps)
        have same : ended.account m = world.account m :=
          (World.account_record rfl rfl _ n).trans (World.account_turn (.completed n value) world n)
        have turned : machine.turn = .completed n value := by
          simp only [machine, turn, Control.answer, Frame.turn, report]
        have next : machine.step = load n (.goOn demand) stack ended := by
          simp only [machine, ended, step, Control.answer, stepProgram, resumeFrame, report]
        refine (stirs_load next same ?_ : machine.Stirs m (world.tally m stack) _)
        rintro rfl
        exact .completed turned

theorem stirs_commit (entries : List (String × Value)) (next : Outcome → Program σ) :
    Stirs m ⟨.run (.commit n entries next), stack, world⟩ (world.tally m stack)
      ((commit n entries next stack world).tally m) := by
  let machine : Machine σ := ⟨.run (.commit n entries next), stack, world⟩
  let settled := (world.record n (.committed n (world.module n).state)).settleAll n entries
  have same : settled.account m = world.account m :=
    (World.account_settleAll _ n entries).trans (World.account_record rfl rfl world n)
  have steps : machine.step = commit n entries next stack world := rfl
  cases passed : (world.module n).firstUndeclared? entries with
  | some name =>
    simp only [commit_eq, passed]
    exact .still
  | none =>
    by_cases ended : (world.module n).state = .pending ∨ (world.module n).state = .completed
    · have loads : machine.step = load n (.answer .unit) (.caller next :: stack) settled := by
        rw [steps]
        rcases ended with state | state <;> simp only [commit_eq, passed, state, settled]
      refine (stirs_load loads same ?_ : machine.Stirs m (world.tally m (.caller next :: stack)) _)
      rintro rfl
      exact .committed rfl passed ended
    · have goesOn : commit n entries next stack world = ⟨.run (next .unit), stack, settled⟩ := by
        rw [commit_eq]
        simp only [passed]
        split
        · next pending => exact absurd (.inl pending) ended
        · next completed => exact absurd (.inr completed) ended
        · rfl
      rw [goesOn]
      exact .of_eq (World.tally_congr same stack)

/-- A hook that is registered waits in the queue, or it runs at once. -/
theorem tally_importer (made : m ∈ world) (hook : ModuleId → Program σ)
    (next : Outcome → Program σ) :
    (∃ queue, (world.module m).hooks = some queue ∧ (importer m hook next stack world).tally m =
        (world.tally m stack).enqueue queue hook) ∨
      (world.module m).hooks = none ∧ (importer m hook next stack world).control = .run (hook m) ∧
        (importer m hook next stack world).tally m =
          (world.tally m stack).register.run [⟨(world.module m).tickets, hook⟩] := by
  unfold importer
  split
  · next queue waits =>
    have tells : (world.enqueue m queue hook).tally m stack = (world.tally m stack).enqueue queue hook :=
      congrArg (Tally.mk · (underway m stack)) (World.account_enqueue made queue hook)
    exact .inl ⟨queue, waits, tells⟩
  · next gone =>
    have still : m ∈ world.update m (·.register none) := by
      rwa [World.mem_iff, World.length_update]
    have tells : (world.update m (·.register none)).tally m (.caller next :: stack) =
        (world.tally m stack).register := by
      simp only [World.tally, World.account, World.module_update_self _ made, Module.register,
        Tally.register, gone]
      rfl
    refine .inr ⟨gone, rfl, ?_⟩
    rw [tally_runHooks _ fun _ => still, tells]

theorem stirs_importer (hook : ModuleId → Program σ) (next : Outcome → Program σ) :
    Stirs m ⟨.run (.importer n hook next), stack, world⟩ (world.tally m stack)
      ((importer n hook next stack world).tally m) := by
  by_cases here : n = m
  · subst here
    by_cases made : n ∈ world
    · rcases tally_importer made hook next with ⟨queue, waits, tells⟩ | ⟨gone, runs, tells⟩
      · rw [tells]
        exact .queued hook waits
      · rw [tells]
        refine .called hook gone ?_
        rintro _ _ ⟨rfl, rfl⟩
        exact runs
    · have waits : (world.module n).hooks = some [] := by
        rw [World.module_of_not_mem made]
        rfl
      simp only [importer, waits, World.enqueue_of_not_mem made]
      exact .still
  · unfold importer
    split
    · next queue _ =>
      exact .of_eq (World.tally_congr (world.account_enqueue_of_ne (Ne.symm here) queue hook) stack)
    · rw [tally_runHooks_of_ne here]
      exact .of_eq (World.tally_congr
        (World.account_update_of_ne (Ne.symm here) (·.register none) world) stack)

theorem stirs_advance (demand : Demand) (n : ModuleId) (stack : List (Frame σ)) (world : World σ) :
    machine.Stirs m (world.tally m stack) ((advance demand n stack world).tally m) := by
  unfold advance
  split
  · exact .of_eq (tally_join ((Demand.account_react ..).trans (World.account_record rfl rfl world n)))
  · cases (world.module n).slot.readiness with
    | failed cause => exact .of_eq (tally_join (Demand.account_react ..))
    | idle => exact .of_eq (tally_join (Demand.account_react ..))
    | exhausted => exact .of_eq (tally_join (Demand.account_react ..))
    | ready body =>
      exact .of_eq (World.tally_congr ((World.account_record rfl rfl _ n).trans
        (World.account_turn (.began n body) world n)) stack)

theorem stirs_stepProgram (program : Program σ) (tended : Tended ⟨.run program, stack, world⟩) :
    Stirs m ⟨.run program, stack, world⟩ (world.tally m stack)
      ((stepProgram stack world program).tally m) := by
  cases program with
  | done outcome =>
    cases stack with
    | nil => exact .still
    | cons frame rest => exact stirs_resumeFrame frame outcome tended
  | act action next => exact .of_eq (World.tally_congr (action.account_perform world) stack)
  | commit n entries next => exact stirs_commit entries next
  | execute n factory code ending next =>
    simp only [stepProgram, execute]
    split
    · exact .of_eq (World.tally_congr (World.account_turn (.making n) world n) stack)
    · exact .still
  | importer n hook next => exact stirs_importer hook next
  | call callee arguments next =>
    simp only [stepProgram, call]
    split
    · split <;> exact .still
    · exact .still
  | resume id n next =>
    simp only [stepProgram, resume]
    split <;> exact .still
  | host | demand | function | detach | remaining => exact .still

/-- The queue of a module goes only when the module loads. -/
theorem Stirs.loading {tally later : Tally σ} {queue : List (Hook σ)}
    (stirs : machine.Stirs m tally later) (waits : tally.hooks = some queue)
    (gone : later.hooks = none) : machine.Loading m := by
  cases stirs with
  | loaded _ loading _ => exact loading
  | queued => cases gone
  | still | called | resumed | unwound => cases waits.symm.trans gone

/-- A transition does one thing to the hooks of a module at most. -/
theorem stirs {machine : Machine σ} (tended : machine.Tended) (m : ModuleId) :
    machine.Stirs m (machine.tally m) (machine.step.tally m) := by
  obtain ⟨control, stack, world⟩ := machine
  cases control with
  | run program => exact stirs_stepProgram program tended
  | demand demand =>
    simp only [step, stepDemand]
    split
    · exact stirs_advance ..
    · exact .of_eq (tally_join (Demand.account_proceed ..))

end Machine

end LiveBindings
