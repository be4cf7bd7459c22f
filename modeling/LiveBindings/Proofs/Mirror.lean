import LiveBindings.Proofs.Confinement
import LiveBindings.Proofs.Renaming

namespace LiveBindings

variable {σ : Type}

/-- How many of a kind were made. The next one has this number. -/
def World.count (world : World σ) : Kind → Nat
  | .module => world.modules.length
  | .function => world.functions.length
  | .body => world.bodies.length

/-- What an action makes. -/
def Action.madeKind? (world : World σ) : Action → Option Kind
  | .create .. => some .module
  | .prepare id _ => if (world.registry.find? id).isSome then none else some .module
  | _ => none

/-- What the next operation of a program makes. -/
def Program.madeKind? (world : World σ) : Program σ → Option Kind
  | .act action _ => action.madeKind? world
  | .function .. => some .function
  | .detach .. => some .body
  | _ => none

/-- What the next transition makes. -/
def Machine.madeKind? (machine : Machine σ) : Option Kind :=
  match machine.control with
  | .run program => program.madeKind? machine.world
  | .demand _ => none

/-- A part of one world is in the other one under other numbers. The journals may differ. -/
structure World.Mirrors [MulAction Renaming σ] (π : Renaming) (share : Share σ) (one other : World σ) :
    Prop where
  made : ∀ m, share.modules m → (m ∈ one ↔ π .module m ∈ other)
  module : ∀ m, share.modules m → other.module (π .module m) = (one.module m).rename π
  function : ∀ id, share.functions id →
    other.functions[π .function id]? = (one.functions[id]?).map (renameFunction π)
  body : ∀ id, share.bodies id → other.bodies[π .body id]? = (one.bodies[id]?).map (Body.rename π)
  registry : ∀ id, share.identifiers id →
    other.registry.find? id = (one.registry.find? id).map (π .module)
  template : other.template = one.template
  own : share.own (π⁻¹ • other.host) = share.own one.host

/-- The machines do the same under other numbers, as far as a part of their worlds goes. -/
structure Machine.Mirrors [MulAction Renaming σ] (π : Renaming) (share : Share σ)
    (one other : Machine σ) : Prop where
  control : other.control = one.control.rename π
  stack : other.stack = one.stack.map (Frame.rename π)
  world : one.world.Mirrors π share other.world

/-- The machine that does in another world what a machine does, under other numbers. -/
def Machine.twin [MulAction Renaming σ] (π : Renaming) (machine : Machine σ) (world : World σ) :
    Machine σ :=
  ⟨machine.control.rename π, machine.stack.map (Frame.rename π), world⟩

theorem Machine.Mirrors.eq_twin [MulAction Renaming σ] {π : Renaming} {share : Share σ}
    {one other : Machine σ} (mirrors : one.Mirrors π share other) : other = one.twin π other.world := by
  rw [twin, ← mirrors.control, ← mirrors.stack]

namespace World.Mirrors

variable [MulAction Renaming σ] {π : Renaming} {share : Share σ} {one other : World σ} {m : ModuleId}

theorem log (mirrors : one.Mirrors π share other) (event event' : Event) :
    (one.log event).Mirrors π share (other.log event') := { mirrors with }

/-- What is put into the journals makes no difference. -/
theorem record (mirrors : one.Mirrors π share other) (m m' : ModuleId) (event event' : Event) :
    (one.record m event).Mirrors π share (other.record m' event') := by
  unfold World.record
  split <;> split <;> exact { mirrors with }

/-- A change of a module and the change of its counterpart that it is under the other numbers. -/
theorem update (mirrors : one.Mirrors π share other) (m : ModuleId) (change change' : Module σ → Module σ)
    (same : ∀ module, (change module).rename π = change' (module.rename π)) :
    (one.update m change).Mirrors π share (other.update (π .module m) change') := by
  refine { mirrors with made := fun n mine => ?_, module := fun n mine => ?_ }
  · rw [mem_iff, mem_iff, length_update, length_update]
    exact mirrors.made n mine
  · by_cases here : n = m
    · subst n
      by_cases made : m ∈ one
      · have also := (mirrors.made m mine).mp made
        rw [module_update_self change made, module_update_self change' also, mirrors.module m mine, same]
      · have also := fun there => made ((mirrors.made m mine).mpr there)
        rw [module_of_not_mem (by rwa [mem_iff, length_update]),
          module_of_not_mem (by rwa [mem_iff, length_update]), Module.rename_absent]
    · have elsewhere : π .module n ≠ π .module m := (π .module).injective.ne here
      rw [module_update_of_ne one here, module_update_of_ne other elsewhere, mirrors.module n mine]

theorem settleAll (mirrors : one.Mirrors π share other) (m : ModuleId)
    (entries : List (String × Value)) :
    (one.settleAll m entries).Mirrors π share (other.settleAll (π .module m) (renameEntries π entries)) := by
  unfold World.settleAll renameEntries
  induction entries generalizing one other with
  | nil => exact mirrors
  | cons entry rest ih =>
    exact ih ((mirrors.record m _ _ _).update m _ _ fun module => module.rename_bind π entry.1 entry.2)

theorem forward (mirrors : one.Mirrors π share other) (m source : ModuleId)
    (localName remoteName : String) (value : Option Value) :
    (one.forward m source localName remoteName value).Mirrors π share
      (other.forward (π .module m) (π .module source) localName remoteName (value.map (π • ·))) :=
  (mirrors.record m _ _ _).update m _ _ fun module => module.rename_define π localName value

theorem offered {source : ModuleId} (mirrors : one.Mirrors π share other) (mine : share.modules source) :
    other.offered (π .module source) = renameEntries π (one.offered source) := by
  rw [World.offered, mirrors.module source mine]
  exact List.filter_map ..

theorem merge {source : ModuleId} (mirrors : one.Mirrors π share other) (mine : share.modules source)
    (m : ModuleId) :
    (one.merge m source).Mirrors π share (other.merge (π .module m) (π .module source)) := by
  unfold World.merge
  rw [mirrors.offered mine]
  refine (mirrors.update m _ _ fun module => ?_).record m _ _ _
  exact congrArg Module.countMerge (module.rename_defineAll π _)

/-- What is made anew has the number that the renaming tells. -/
theorem create (mirrors : one.Mirrors π share other)
    (number : π .module one.modules.length = other.modules.length) (names : List ExportName)
    (config : Config) : (one.create names config).2.Mirrors π share (other.create names config).2 := by
  have iff (m : ModuleId) : m = one.modules.length ↔ π .module m = other.modules.length := by
    rw [← number, (π .module).injective.eq_iff]
  refine { mirrors with made := fun m mine => ?_, module := fun m mine => ?_ }
  · have made := mirrors.made m mine
    simp only [mem_iff] at made
    simp only [mem_iff, World.create, List.length_append, List.length_singleton]
    rw [Nat.lt_succ_iff_lt_or_eq, Nat.lt_succ_iff_lt_or_eq, made, iff]
  · rw [module_create, module_create, mirrors.module m mine]
    simp only [← iff]
    split <;> rfl

theorem prepare {id : String} (mirrors : one.Mirrors π share other) (mine : share.identifiers id)
    (number : one.registry.find? id = none → π .module one.modules.length = other.modules.length)
    (names : List ExportName) : (other.prepare id names).1 = π .module (one.prepare id names).1 ∧
      (one.prepare id names).2.Mirrors π share (other.prepare id names).2 := by
  have same := mirrors.registry id mine
  unfold World.prepare
  cases found : one.registry.find? id with
  | some m =>
    rw [found, Option.map_some] at same
    rw [same]
    exact ⟨rfl, mirrors⟩
  | none =>
    rw [found, Option.map_none] at same
    rw [same, mirrors.template]
    have number := number found
    have made := (mirrors.log (.prepared id) (.prepared id)).create number names
      { one.template with label := some id }
    refine ⟨number.symm, { made with registry := fun also mine => ?_ }⟩
    rw [Table.find?_insert, Table.find?_insert]
    split
    · exact congrArg some number.symm
    · exact mirrors.registry also mine

theorem define (mirrors : one.Mirrors π share other)
    (number : π .function one.functions.length = other.functions.length) (name : String)
    (code : List Value → Program σ) :
    (other.define name (renameFunction π code)).1 = π • (one.define name code).1 ∧
      (one.define name code).2.Mirrors π share (other.define name (renameFunction π code)).2 := by
  refine ⟨congrArg (Value.function name) number.symm, { mirrors with function := fun id mine => ?_ }⟩
  simp only [World.define, getElem?_append_singleton, ← number, (π .function).injective.eq_iff]
  split
  · rfl
  · exact mirrors.function id mine

theorem detach (mirrors : one.Mirrors π share other)
    (number : π .body one.bodies.length = other.bodies.length) (body : Body σ) :
    (other.detach (body.rename π)).1 = π .body (one.detach body).1 ∧
      (one.detach body).2.Mirrors π share (other.detach (body.rename π)).2 := by
  refine ⟨number.symm, { mirrors with body := fun id mine => ?_ }⟩
  simp only [World.detach, getElem?_append_singleton, ← number, (π .body).injective.eq_iff]
  split
  · rfl
  · exact mirrors.body id mine

theorem set (mirrors : one.Mirrors π share other) (id : BodyId) (body : Body σ) :
    World.Mirrors π share { one with bodies := one.bodies.set id body }
      { other with bodies := other.bodies.set (π .body id) (body.rename π) } := by
  refine { mirrors with body := fun also mine => ?_ }
  have same := mirrors.body also mine
  simp only [List.getElem?_set', (π .body).injective.eq_iff, same]
  split
  · cases one.bodies[also]? <;> rfl
  · rfl

theorem label (mirrors : one.Mirrors π share other) (mine : share.modules m) :
    other.label (π .module m) = one.label m := by
  rw [World.label, mirrors.module m mine]
  rfl

theorem hooks (mirrors : one.Mirrors π share other) (mine : share.modules m) :
    (other.module (π .module m)).hooks = (one.module m).hooks.map (List.map (Hook.rename π)) := by
  rw [mirrors.module m mine]
  rfl

end World.Mirrors

namespace World.Mirrors

variable [MulAction Renaming σ] {π : Renaming} {share : Share σ} {one other : World σ} {m : ModuleId}
  {demand : Demand}

theorem machine (mirrors : one.Mirrors π share other) (control : Control σ) (stack : List (Frame σ)) :
    Machine.Mirrors π share ⟨control, stack, one⟩
      ⟨control.rename π, stack.map (Frame.rename π), other⟩ := ⟨rfl, rfl, mirrors⟩

theorem next (mirrors : one.Mirrors π share other) (stack : List (Frame σ)) (next : Outcome → Program σ)
    (outcome : Outcome) : Machine.Mirrors π share ⟨.run (next outcome), stack, one⟩
      ⟨.run (renameNext π next (π • outcome)), stack.map (Frame.rename π), other⟩ :=
  ⟨congrArg Control.run (renameNext_smul π next outcome), rfl, mirrors⟩

theorem deliver (mirrors : one.Mirrors π share other) (stack : List (Frame σ)) (how : Reading)
    (target : Target) (result : Except Fault Value) :
    Machine.Mirrors π share (.join stack (Demand.deliver how target one result))
      (.join (stack.map (Frame.rename π))
        (Demand.deliver how (target.rename π) other (result.map (π • ·)))) := by
  cases result with
  | ok value => exact mirrors.machine _ _
  | error fault =>
    cases how with
    | resolve => exact mirrors.machine _ _
    | get =>
      simp only [Demand.deliver, Except.map]
      split
      · exact mirrors.machine _ _
      · exact (mirrors.record _ _ _ _).machine _ _

theorem giveUp (mirrors : one.Mirrors π share other) (stack : List (Frame σ)) (how : Reading)
    {target : Target} (mine : share.modules target.source) :
    Machine.Mirrors π share (.join stack (Demand.giveUp how target one))
      (.join (stack.map (Frame.rename π)) (Demand.giveUp how (target.rename π) other)) := by
  have same : (target.rename π).remote.bind (other.module (target.rename π).source).unsettled =
      (target.remote.bind (one.module target.source).unsettled).map (π • ·) := by
    rw [Target.remote_rename, Target.source_rename, mirrors.module _ mine]
    cases target.remote with
    | ok name => exact Module.unsettled_rename π _ name
    | error fault => rfl
  rw [Demand.giveUp, Demand.giveUp, same]
  exact mirrors.deliver stack how target _

theorem awaited? (mirrors : one.Mirrors π share other)
    (mine : ∀ m ∈ demand.subjects, share.modules m) :
    (demand.rename π).awaited? other = (demand.awaited? one).map (π .module) := by
  cases demand with
  | read how target =>
    have source := mirrors.module _ (mine target.source List.mem_cons_self)
    simp only [Demand.rename, Demand.awaited?, Target.remote_rename, Target.source_rename, source,
      Module.lacks_rename]
    split
    · split <;> rfl
    · rfl
  | forward m source pairs =>
    have source := mirrors.module _ (mine source (List.mem_cons_of_mem _ List.mem_cons_self))
    cases pairs with
    | nil => rfl
    | cons pair rest =>
      simp only [Demand.rename, Demand.awaited?, source, Module.lacks_rename]
      split <;> rfl
  | finish m => rfl
  | wildcards m =>
    have pending : (other.module (π .module m)).pendingWildcards = (one.module m).pendingWildcards := by
      rw [mirrors.module _ (mine m List.mem_cons_self)]
      rfl
    simp only [Demand.rename, Demand.awaited?, pending]
    split <;> rfl

theorem react_stepped (mirrors : one.Mirrors π share other) (stack : List (Frame σ)) (demand : Demand) :
    Machine.Mirrors π share (.join stack (demand.react one .stepped))
      (.join (stack.map (Frame.rename π)) ((demand.rename π).react other .stepped)) := by
  cases demand <;> exact mirrors.machine (.demand _) stack

theorem react_failed (mirrors : one.Mirrors π share other) (stack : List (Frame σ)) (demand : Demand)
    (fault : Fault) : Machine.Mirrors π share (.join stack (demand.react one (.failed fault)))
      (.join (stack.map (Frame.rename π)) ((demand.rename π).react other (.failed fault))) := by
  cases demand with
  | read how target => exact mirrors.deliver stack how target (.error fault)
  | forward | finish | wildcards => exact mirrors.machine _ _

theorem react (mirrors : one.Mirrors π share other) (stack : List (Frame σ))
    (mine : ∀ m ∈ demand.subjects, share.modules m) (progress : Progress) :
    Machine.Mirrors π share (.join stack (demand.react one progress))
      (.join (stack.map (Frame.rename π)) ((demand.rename π).react other progress)) := by
  cases progress with
  | stepped => exact mirrors.react_stepped stack demand
  | failed fault => exact mirrors.react_failed stack demand fault
  | busy | idle | exhausted =>
    cases demand with
    | read how target => exact mirrors.giveUp stack how (mine _ List.mem_cons_self)
    | forward m source pairs =>
      cases pairs with
      | nil => exact mirrors.machine _ _
      | cons pair rest =>
        exact (mirrors.forward m source pair.1 pair.2 none).machine (.demand (.forward m source rest)) stack
    | finish m => first | exact (mirrors.record _ _ _ _).machine _ _ | exact mirrors.machine _ _
    | wildcards m => exact mirrors.machine _ _

theorem proceed (mirrors : one.Mirrors π share other) (stack : List (Frame σ))
    (mine : ∀ m ∈ demand.subjects, share.modules m) :
    Machine.Mirrors π share (.join stack (demand.proceed one))
      (.join (stack.map (Frame.rename π)) ((demand.rename π).proceed other)) := by
  cases demand with
  | read how target =>
    have source := mine target.source List.mem_cons_self
    simp only [Demand.rename, Demand.proceed, Target.remote_rename, Target.source_rename,
      mirrors.module _ source, Module.peek_rename]
    split
    · next name _ =>
      cases (one.module target.source).peek name with
      | some value => exact mirrors.machine _ _
      | none => exact mirrors.giveUp stack how source
    · next fault _ => exact mirrors.deliver stack how target (.error fault)
  | forward m source pairs =>
    have source := mine source (List.mem_cons_of_mem _ List.mem_cons_self)
    cases pairs with
    | nil => exact mirrors.machine _ _
    | cons pair rest =>
      simp only [Demand.rename, Demand.proceed, mirrors.module _ source, Module.peek_rename]
      exact (mirrors.forward m _ pair.1 pair.2 _).machine (.demand (.forward m _ rest)) stack
  | finish | wildcards => exact mirrors.machine _ _

theorem advance (mirrors : one.Mirrors π share other) (stack : List (Frame σ))
    (mine : ∀ m ∈ demand.subjects, share.modules m) (also : share.modules m) :
    Machine.Mirrors π share (Machine.advance demand m stack one)
      (Machine.advance (demand.rename π) (π .module m) (stack.map (Frame.rename π)) other) := by
  have same := mirrors.module m also
  have held : (other.module (π .module m)).held = (one.module m).held := by rw [same]; rfl
  have readiness : (other.module (π .module m)).slot.readiness =
      (one.module m).slot.readiness.rename π := by
    rw [same]
    exact Slot.readiness_rename π _
  simp only [Machine.advance, held, readiness, mirrors.label also]
  split
  · exact (mirrors.record _ _ _ _).react stack mine .busy
  · cases (one.module m).slot.readiness with
    | failed cause => exact mirrors.react stack mine _
    | idle => exact mirrors.react stack mine _
    | exhausted => exact mirrors.react stack mine _
    | ready body =>
      have begun := mirrors.update m (·.resumed body) (·.resumed (body.rename π)) fun _ => rfl
      refine ⟨congrArg Control.run (body.next_rename π m), congrArg (· :: _) ?_, begun.record _ _ _ _⟩
      simp only [Frame.rename, Body.verdict_rename]

theorem runHooks (mirrors : one.Mirrors π share other) (after : After) (stack : List (Frame σ)) (m : ModuleId)
    (queue : List (Hook σ)) : Machine.Mirrors π share (Machine.runHooks m after stack one queue)
      (Machine.runHooks (π .module m) (after.rename π) (stack.map (Frame.rename π)) other
        (queue.map (Hook.rename π))) := by
  cases queue with
  | nil => cases after <;> exact mirrors.machine _ _
  | cons hook rest =>
    refine ⟨congrArg Control.run (renameFor_apply π hook.code m), rfl, mirrors.record _ _ _ _⟩

theorem load (mirrors : one.Mirrors π share other) (after : After) (stack : List (Frame σ))
    (mine : share.modules m) :
    Machine.Mirrors π share (Machine.load m after stack one)
      (Machine.load (π .module m) (after.rename π) (stack.map (Frame.rename π)) other) := by
  simp only [Machine.load, mirrors.hooks mine]
  cases (one.module m).hooks with
  | none => exact mirrors.runHooks after stack m []
  | some queue =>
    have loaded := mirrors.update m Module.load Module.load fun _ => rfl
    exact (loaded.record _ _ _ _).runHooks after stack m queue

/-- A frame that holds no module and one that holds a module of the part are handed an outcome alike. The
demand that a step serves is only told of what came of the step. -/
theorem resumeFrame {frame : Frame σ} (mirrors : one.Mirrors π share other) (stack : List (Frame σ))
    (mine : ∀ m, frame.owner? = some m → share.modules m) (outcome : Outcome) :
    Machine.Mirrors π share (Machine.resumeFrame stack one frame outcome)
      (Machine.resumeFrame (stack.map (Frame.rename π)) other (frame.rename π) (π • outcome)) := by
  cases frame with
  | caller next => exact mirrors.next stack next outcome
  | stepping m verdict demand =>
    have also := mine m rfl
    cases outcome with
    | panicked message => exact (mirrors.update m Module.release Module.release fun _ => rfl).machine _ _
    | failed cause =>
      have failed := mirrors.update m (·.fail cause) (·.fail cause) fun _ => rfl
      simp only [Frame.rename, Result.smul_failed, Machine.resumeFrame, mirrors.label also]
      exact (failed.record _ _ _ _).react_failed stack demand _
    | returned value =>
      simp only [Frame.rename, Result.smul_returned, Machine.resumeFrame, inv_smul_smul]
      split
      · have yields := mirrors.update m Module.yield Module.yield fun _ => rfl
        exact yields.react_stepped stack demand
      · have ended := mirrors.update m Module.complete Module.complete fun _ => rfl
        exact (ended.record _ _ _ _).load (.goOn demand) stack also
  | building m body =>
    have attached := mirrors.update m (·.attach body) (·.attach (body.rename π)) fun _ => rfl
    cases outcome with
    | panicked message => exact (mirrors.update m Module.release Module.release fun _ => rfl).machine _ _
    | failed | returned => exact (attached.record _ _ _ _).machine (.demand (.wildcards m)) stack
  | hooks m rest after =>
    cases outcome with
    | panicked message => exact mirrors.machine _ _
    | failed | returned => exact mirrors.runHooks after stack m rest

theorem commit (mirrors : one.Mirrors π share other) (stack : List (Frame σ)) (mine : share.modules m)
    (entries : List (String × Value)) (next : Outcome → Program σ) :
    Machine.Mirrors π share (Machine.commit m entries next stack one)
      (Machine.commit (π .module m) (renameEntries π entries) (renameNext π next)
        (stack.map (Frame.rename π)) other) := by
  have same := mirrors.module m mine
  have state : (other.module (π .module m)).state = (one.module m).state := by rw [same]; rfl
  have undeclared : (other.module (π .module m)).firstUndeclared? (renameEntries π entries) =
      (one.module m).firstUndeclared? entries := by rw [same, Module.firstUndeclared?_rename]
  have settled (m' : ModuleId) (event event' : Event) :=
    (mirrors.record m m' event event').settleAll m entries
  rw [Machine.commit_eq, Machine.commit_eq, undeclared, mirrors.label mine, state]
  cases (one.module m).firstUndeclared? entries with
  | some name => exact mirrors.next stack next (.failed _)
  | none =>
    cases (one.module m).state with
    | pending | completed =>
      exact (settled ..).load (.answer .unit) (.caller next :: stack) mine
    | suspended | running | failed => exact (settled ..).next stack next .unit

theorem execute (mirrors : one.Mirrors π share other) (stack : List (Frame σ)) (mine : share.modules m)
    (factory : Program σ) (body : Body σ) (next : Outcome → Program σ) :
    Machine.Mirrors π share (Machine.execute m factory body next stack one)
      (Machine.execute (π .module m) (factory.rename π) (body.rename π) (renameNext π next)
        (stack.map (Frame.rename π)) other) := by
  have same := mirrors.module m mine
  have held : (other.module (π .module m)).held = (one.module m).held := by rw [same]; rfl
  have state : (other.module (π .module m)).slot.state = (one.module m).slot.state := by rw [same]; rfl
  unfold Machine.execute
  rw [held, state, mirrors.label mine]
  split
  · exact (mirrors.update m Module.hold Module.hold fun _ => rfl).machine (.run factory)
      (.building m body :: .caller next :: stack)
  · exact mirrors.next stack next (.failed _)

theorem importer (mirrors : one.Mirrors π share other) (stack : List (Frame σ))
    (mine : share.modules m) (hook : ModuleId → Program σ) (next : Outcome → Program σ) :
    Machine.Mirrors π share (Machine.importer m hook next stack one)
      (Machine.importer (π .module m) (renameFor π hook) (renameNext π next)
        (stack.map (Frame.rename π)) other) := by
  have tickets : (other.module (π .module m)).tickets = (one.module m).tickets := by
    rw [mirrors.module m mine]
    rfl
  simp only [Machine.importer, World.enqueue, mirrors.hooks mine, tickets]
  cases (one.module m).hooks with
  | some queue =>
    have queued := mirrors.update m
      (·.register (some (queue ++ [⟨(one.module m).tickets, hook⟩])))
      (·.register (some (queue.map (Hook.rename π) ++ [⟨(one.module m).tickets, renameFor π hook⟩])))
      fun module => by simp only [Module.register, Module.rename, Option.map_some, List.map_append]; rfl
    exact (queued.record _ _ _ _).next stack next .unit
  | none =>
    have registered := mirrors.update m (·.register none) (·.register none) fun _ => rfl
    exact registered.runHooks (.answer .unit) (.caller next :: stack) m
      [⟨(one.module m).tickets, hook⟩]

theorem call {callee : Value} (mirrors : one.Mirrors π share other) (stack : List (Frame σ))
    (mine : ∀ name id, callee = .function name id → share.functions id) (arguments : List Value)
    (next : Outcome → Program σ) :
    Machine.Mirrors π share (Machine.call callee arguments next stack one)
      (Machine.call (π • callee) (arguments.map (π • ·)) (renameNext π next)
        (stack.map (Frame.rename π)) other) := by
  cases callee with
  | function name id =>
    simp only [Value.smul_function, Machine.call, mirrors.function id (mine name id rfl)]
    cases one.functions[id]? with
    | none => exact mirrors.next stack next .unit
    | some code =>
      refine ⟨congrArg Control.run (renameFunction_map π code arguments), congrArg (· :: _) ?_, mirrors⟩
      exact congrArg Frame.caller (renameNext_comp π next (callResult_smul π⁻¹)).symm
  | _ => exact mirrors.next stack next .unit

theorem resume {id : BodyId} (mirrors : one.Mirrors π share other) (stack : List (Frame σ))
    (mine : share.bodies id) (m : ModuleId) (next : Outcome → Program σ) :
    Machine.Mirrors π share (Machine.resume id m next stack one)
      (Machine.resume (π .body id) (π .module m) (renameNext π next) (stack.map (Frame.rename π))
        other) := by
  simp only [Machine.resume, mirrors.body id mine]
  cases one.bodies[id]? with
  | none => exact mirrors.next stack next (.returned (.string _))
  | some body =>
    refine ⟨congrArg Control.run (body.next_rename π m), congrArg (· :: _) ?_, mirrors.set id body.advanced⟩
    exact congrArg Frame.caller (renameNext_comp π next (body.reportOf_smul π)).symm

theorem registry_eq (mirrors : one.Mirrors π share other) (mine : ∀ id, share.identifiers id) :
    other.registry = one.registry.map (π .module) :=
  Table.eq_of_find? fun id => by rw [mirrors.registry id (mine id), Table.find?_map]

theorem perform {action : Action} {apart : Share σ} (mirrors : one.Mirrors π share other)
    (mine : ∀ m ∈ action.subjects, share.modules m) (keeps : action.Keeps share apart one)
    (number : ∀ kind, action.madeKind? one = some kind → π kind (one.count kind) = other.count kind) :
    action.recover π ((action.rename π).perform other).1 = (action.perform one).1 ∧
      (action.perform one).2.Mirrors π share ((action.rename π).perform other).2 := by
  cases action with
  | create names config =>
    have number := number .module rfl
    exact ⟨(Equiv.symm_apply_eq _).mpr number.symm, mirrors.create number names config⟩
  | observe m =>
    refine ⟨?_, mirrors⟩
    simp only [Action.rename, Action.perform, mirrors.module m (mine m List.mem_cons_self),
      Module.observation_rename]
    exact Observation.rename_inv_rename π _
  | configuration m =>
    refine ⟨?_, mirrors⟩
    simp only [Action.rename, Action.perform, mirrors.module m (mine m List.mem_cons_self)]
    rfl
  | settle m name value =>
    have also := mine m List.mem_cons_self
    have declares : (other.module (π .module m)).declares name = (one.module m).declares name := by
      rw [mirrors.module m also]
      rfl
    simp only [Action.rename, Action.perform, World.settle, declares, mirrors.label also]
    split
    · exact ⟨rfl, (mirrors.record m _ _ _).update m _ _ fun module => module.rename_bind π name value⟩
    · exact ⟨rfl, mirrors⟩
  | merge m source =>
    exact ⟨rfl, mirrors.merge (mine source (List.mem_cons_of_mem _ List.mem_cons_self)) m⟩
  | prepare id names =>
    have number (unknown : one.registry.find? id = none) :=
      number .module (by simp [Action.madeKind?, unknown])
    obtain ⟨reply, prepared⟩ := mirrors.prepare keeps.1 number names
    exact ⟨(Equiv.symm_apply_eq _).mpr reply, prepared⟩
  | lookup id =>
    refine ⟨?_, mirrors⟩
    simp only [Action.rename, Action.perform, Action.recover, mirrors.registry id keeps]
    cases one.registry.find? id with
    | none => rfl
    | some m => exact congrArg some ((π .module).symm_apply_apply m)
  | registered id =>
    refine ⟨?_, mirrors⟩
    simp only [Action.rename, Action.perform, Table.contains, mirrors.registry id keeps]
    exact Option.isSome_map
  | identifiers =>
    refine ⟨?_, mirrors⟩
    simp only [Action.rename, Action.perform, mirrors.registry_eq keeps]
    exact Table.keys_map ..
  | registrySize =>
    refine ⟨?_, mirrors⟩
    simp only [Action.rename, Action.perform, mirrors.registry_eq keeps]
    exact List.length_map ..
  | registryIsEmpty =>
    refine ⟨?_, mirrors⟩
    simp only [Action.rename, Action.perform, mirrors.registry_eq keeps]
    exact List.isEmpty_map
  | note label values => exact ⟨rfl, mirrors.log _ _⟩

end World.Mirrors

namespace Machine.Within

variable [MulAction Renaming σ] {π : Renaming} {mine apart : Share σ} {machine : Machine σ} {world : World σ}

/-- A transition that concerns one part does the same in every world that has the same part under other
numbers, if what it makes is given the number that the renaming tells. -/
theorem mirrors (within : machine.Within mine apart) (mirrors : machine.world.Mirrors π mine world)
    (number : ∀ kind, machine.madeKind? = some kind →
      π kind (machine.world.count kind) = world.count kind) :
    machine.step.Mirrors π mine (machine.twin π world).step := by
  obtain ⟨control, stack, before⟩ := machine
  obtain ⟨subjects, keeps⟩ := within
  cases control with
  | demand demand =>
    simp only [twin, Control.rename, step, stepDemand, mirrors.awaited? subjects]
    cases awaited : demand.awaited? before with
    | none => exact mirrors.proceed stack subjects
    | some m =>
      exact mirrors.advance stack subjects (subjects m (Demand.mem_subjects_of_awaited awaited))
  | run program =>
    cases program with
    | done outcome =>
      cases stack with
      | nil => exact mirrors.machine _ _
      | cons frame rest =>
        exact mirrors.resumeFrame rest (fun m owner => subjects m (frame.mem_subjects owner)) outcome
    | host change next =>
      obtain ⟨own, goesOn⟩ := keeps.1 _ _ mirrors.own
      have told := inv_smul_smul π (change (π⁻¹ • world.host))
      refine ⟨congrArg (fun next : Program σ => Control.run (next.rename π)) ?_, rfl,
        { mirrors with own := (congrArg mine.own told).trans own }⟩
      exact (congrArg next told).trans goesOn
    | act action next =>
      obtain ⟨reply, performed⟩ := mirrors.perform subjects keeps number
      exact ⟨congrArg (fun reply => Control.run ((next reply).rename π)) reply, rfl, performed⟩
    | demand demand next => exact mirrors.machine (.demand demand) (.caller next :: stack)
    | commit m entries next =>
      exact mirrors.commit stack (subjects m List.mem_cons_self) entries next
    | execute m factory code ending next =>
      exact mirrors.execute stack (subjects m List.mem_cons_self) factory ⟨0, code, ending⟩ next
    | importer m hook next =>
      exact mirrors.importer stack (subjects m List.mem_cons_self) hook next
    | call callee arguments next => exact mirrors.call stack keeps arguments next
    | resume id m next => exact mirrors.resume stack keeps m next
    | remaining id next =>
      simp only [twin, Control.rename, Program.rename, step, stepProgram, mirrors.body id keeps]
      cases before.bodies[id]? with
      | none => exact mirrors.machine _ _
      | some body =>
        simp only [Option.map_some, Option.elim_some, Body.remaining_rename]
        exact mirrors.machine _ _
    | function name code next =>
      obtain ⟨value, defined⟩ := mirrors.define (number .function rfl) name code
      have told : π⁻¹ • (world.define name (renameFunction π code)).1 = (before.define name code).1 := by
        rw [value, inv_smul_smul]
      exact ⟨congrArg (fun value => Control.run ((next value).rename π)) told, rfl, defined⟩
    | detach code ending next =>
      obtain ⟨id, detached⟩ := mirrors.detach (number .body rfl) ⟨0, code, ending⟩
      have told := (Equiv.symm_apply_eq _).mpr id
      exact ⟨congrArg (fun id => Control.run ((next id).rename π)) told, rfl, detached⟩

end Machine.Within

end LiveBindings
