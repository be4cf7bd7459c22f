import LiveBindings.Operation
import LiveBindings.Proofs.Annals
import LiveBindings.Proofs.Course
import LiveBindings.Proofs.Tally

namespace LiveBindings

open Machine

variable {σ : Type} {allowed : Program σ → Prop}

/-- The module that an event is about. -/
def Event.subject? : Event → Option ModuleId
  | .prepared _ | .note .. => none
  | .settled m .. | .resuming m _ | .executing m _ | .refused m | .deferred m | .completed m _
  | .hooksRun m _ | .forwarded m .. | .merged m .. | .exportReadFailed m .. | .importReadFailed m ..
  | .bodyFailed m _ | .committed m _ | .hookQueued m _ | .hookStarted m _ => some m

/-- The lines of the log that are about a module, the earliest first. -/
def World.lines (world : World σ) (m : ModuleId) : List LogLine :=
  (world.journal.reverse.filter (·.subject? = some m)).filterMap (·.logLine? world.label)

namespace LogLine

/-- Whether what a line says begins with a text. -/
def begins (line : LogLine) (text : String) : Bool := text.toList.isPrefixOf line.message.toList

/-- Whether a line tells of the life of a body. -/
def tellsBody (line : LogLine) : Bool :=
  line.begins "Executing module body" || line.begins "Resuming module body" ||
    line.begins "Module body completed" || line.begins "Module body failed"

def tellsLoading (line : LogLine) : Bool := line.begins "Running importer hooks"

variable {event : Event} {label : ModuleId → String} {line : LogLine} {m : ModuleId}

theorem tellsBody_of_logLine? (leaves : event.logLine? label = some line)
    (about : event.subject? = some m) : line.tellsBody = event.tellsBody m := by
  cases event with
  | committed | hookQueued | hookStarted | note => cases leaves
  | prepared => cases about
  | _ =>
    cases leaves
    cases about
    simp [tellsBody, begins, List.isPrefixOf, Event.tellsBody]

theorem tellsLoading_of_logLine? (leaves : event.logLine? label = some line)
    (about : event.subject? = some m) : line.tellsLoading = (event.loads? m).isSome := by
  cases event with
  | committed | hookQueued | hookStarted | note => cases leaves
  | prepared => cases about
  | _ =>
    cases leaves
    cases about
    simp [tellsLoading, begins, List.isPrefixOf, Event.loads?]

end LogLine

theorem Event.subject?_of_tellsBody {event : Event} {m : ModuleId}
    (tells : event.tellsBody m = true) : event.subject? = some m := by
  cases event with
  | executing n | resuming n | completed n | bodyFailed n =>
    exact congrArg some (of_decide_eq_true tells)
  | _ => cases tells

theorem Event.subject?_of_loads? {event : Event} {m : ModuleId} {count : Nat}
    (loads : event.loads? m = some count) : event = .hooksRun m count := by
  cases event with
  | hooksRun n other =>
    simp only [loads?] at loads
    split at loads
    · next same => rw [same, Option.some.inj loads]
    · cases loads
  | _ => cases loads

namespace World

/-- The lines that tell of the body are those of its annals. -/
theorem filter_tellsBody_lines (world : World σ) (m : ModuleId) :
    (world.lines m).filter LogLine.tellsBody =
      (world.annals m).filterMap (·.logLine? world.label) := by
  rw [lines, annals, ← List.filter_reverse, List.filter_filterMap, List.filterMap_filter,
    List.filterMap_filter]
  congr 1
  funext event
  by_cases about : event.subject? = some m
  · cases leaves : event.logLine? world.label with
    | none => simp
    | some line => simp [Option.filter, about, LogLine.tellsBody_of_logLine? leaves about]
  · have silent : event.tellsBody m ≠ true := mt Event.subject?_of_tellsBody about
    simp [about, silent]

/-- The lines that tell of the loading give the numbers of the hooks. -/
theorem filter_tellsLoading_lines (world : World σ) (m : ModuleId) :
    (world.lines m).filter LogLine.tellsLoading =
      (world.account m).loads.map fun count => ⟨.debug, "Running importer hooks",
        [("module", .string (world.label m)), ("count", .ofNat count)]⟩ := by
  rw [lines, account, ← List.filterMap_reverse, List.filter_filterMap, List.filterMap_filter,
    List.map_filterMap]
  congr 1
  funext event
  cases loads : event.loads? m with
  | some count =>
    cases Event.subject?_of_loads? loads
    simp [Event.subject?, Event.logLine?, Option.filter, LogLine.tellsLoading, LogLine.begins,
      List.isPrefixOf]
  | none =>
    by_cases about : event.subject? = some m
    · cases leaves : event.logLine? world.label with
      | none => simp
      | some line => simp [Option.filter, LogLine.tellsLoading_of_logLine? leaves about, loads]
    · simp [about]

end World

namespace Module

/-- A line about a module. -/
def line (module : Module σ) (level : Level) (message : String) (details : List (String × Value)) :
    LogLine := ⟨level, message, ("module", .string module.label) :: details⟩

/-- The lines about a body that was attached, but for its end: the resumptions count from one on. -/
def resumptionLines (module : Module σ) : List LogLine :=
  module.line .debug "Executing module body" [("wildcards", .ofNat module.wildcards)] ::
    (List.range' 1 module.steps).map fun step =>
      module.line .trace "Resuming module body" [("step", .ofNat step)]

/-- The lines about the life of a module's body that the log has to have, going by how the module looks.
The end of the body comes last, and only if the body has completed or failed. -/
def lifeLines (module : Module σ) : List LogLine :=
  match module.state with
  | .pending => []
  | .suspended => module.resumptionLines
  | .running => if module.slot.body.isSome then module.resumptionLines else []
  | .completed => module.resumptionLines ++
      [module.line .debug "Module body completed" [("steps", .ofNat module.steps)]]
  | .failed => module.resumptionLines ++
      [module.line .error ("Module body failed: " ++ module.slot.failure.elim "" Fault.message) []]

variable {m : ModuleId} {module : Module σ} {label : ModuleId → String}

theorem filterMap_resumptions (same : label m = module.label) :
    (module.resumptions m).filterMap (Event.logLine? label) = module.resumptionLines := by
  simp [resumptions, resumptionLines, List.filterMap_map, Function.comp_def, Event.logLine?, line,
    same]

theorem filterMap_annals {given : List (Body σ)} {past : List (Passage σ)}
    (chronicle : Chronicle m module.life given past) (same : label m = module.label) :
    (module.annals m).filterMap (Event.logLine? label) = module.lifeLines := by
  have resumed := filterMap_resumptions same
  cases chronicle with
  | unattached slot _ =>
    have slot : module.slot = .empty := slot
    cases held : module.held <;> simp [annals, lifeLines, state, held, slot, Slot.empty]
  | waiting _ slot free _ =>
    have slot : module.slot = _ := slot
    have free : module.held = false := free
    simp [annals, lifeLines, state, free, slot, resumed]
  | stepping _ slot held _ =>
    have slot : module.slot = _ := slot
    have held : module.held = true := held
    simp [annals, lifeLines, state, held, slot, resumed]
  | completed _ _ _ slot free _ =>
    have slot : module.slot = _ := slot
    have free : module.held = false := free
    simp [annals, lifeLines, state, free, slot, resumed, Event.logLine?, same, line]
  | failed _ _ slot free _ =>
    have slot : module.slot = _ := slot
    have free : module.held = false := free
    simp [annals, lifeLines, state, free, slot, resumed, Event.logLine?, same, line]

end Module

namespace Machine

/-- A module loads in a transition, with the given hooks in its queue. -/
structure LoadsWith (machine : Machine σ) (m : ModuleId) (queue : List (Hook σ)) : Prop where
  queued : (machine.world.module m).hooks = some queue
  loaded : (machine.step.world.module m).isLoaded = true

/-- Only the loading of a module is told to be one. -/
theorem Stirs.loads {machine : Machine σ} {m : ModuleId} {tally later : Tally σ}
    (stirs : machine.Stirs m tally later) :
    later.loads = tally.loads ∧ later.hooks.isNone = tally.hooks.isNone ∨
      ∃ queue, tally.hooks = some queue ∧ later.hooks = none ∧
        later.loads = tally.loads ++ [queue.length] := by
  cases stirs with
  | queued code waits => exact .inl ⟨rfl, by rw [waits]; rfl⟩
  | loaded waits => exact .inr ⟨_, waits, rfl, rfl⟩
  | still | called | resumed | unwound => exact .inl ⟨rfl, rfl⟩

/-- The log tells the life of a module's body as it was, up to what the module is now, and it tells of
the loading with the hooks that were queued then. -/
structure LogTells (machine : Machine σ) (past : List (Machine σ)) (m : ModuleId) : Prop where
  life : (machine.world.lines m).filter LogLine.tellsBody = (machine.world.module m).lifeLines
  unloaded : (machine.world.module m).isLoaded = false →
    (machine.world.lines m).filter LogLine.tellsLoading = []
  loaded : (machine.world.module m).isLoaded = true →
    ∃ earlier ∈ past, ∃ queue, earlier.LoadsWith m queue ∧
      (machine.world.lines m).filter LogLine.tellsLoading =
        [(machine.world.module m).line .debug "Running importer hooks"
          [("count", .ofNat queue.length)]]

end Machine

theorem Trail.loads {machine : Machine σ} {past : List (Machine σ)}
    (trail : Trail allowed machine past) (m : ModuleId) :
    (machine.world.module m).isLoaded = false ∧ (machine.world.account m).loads = [] ∨
      (machine.world.module m).isLoaded = true ∧ ∃ earlier ∈ past, ∃ queue,
        earlier.LoadsWith m queue ∧ (machine.world.account m).loads = [queue.length] := by
  induction trail with
  | start template host =>
    have absent : (World.empty template host).module m = .absent :=
      World.module_of_not_mem (Nat.not_lt_zero m)
    exact .inl ⟨congrArg Module.isLoaded absent, rfl⟩
  | next _ _ _ ih => exact ih
  | @step machine past trail ih =>
    have stirs := machine.stirs trail.run.tended m
    rcases stirs.loads with ⟨loads, hooks⟩ | ⟨queue, queued, gone, loads⟩
    · have loads : (machine.step.world.account m).loads = (machine.world.account m).loads := loads
      have hooks : (machine.step.world.module m).isLoaded = (machine.world.module m).isLoaded := hooks
      rw [loads, hooks]
      refine ih.imp id (And.imp_right ?_)
      rintro ⟨earlier, member, told⟩
      exact ⟨earlier, List.mem_cons_of_mem machine member, told⟩
    · have queued : (machine.world.module m).hooks = some queue := queued
      have loaded : (machine.step.world.module m).isLoaded = true := Option.isNone_iff_eq_none.mpr gone
      rcases ih with ⟨_, none⟩ | ⟨already, _⟩
      · have loads : (machine.step.world.account m).loads =
            (machine.world.account m).loads ++ [queue.length] := loads
        rw [none] at loads
        exact .inr ⟨loaded, machine, List.mem_cons_self, queue, ⟨queued, loaded⟩, loads⟩
      · rw [Module.isLoaded, queued] at already
        cases already

/-- In every run, with whatever failed or panicked in it, the log tells of each module that its body
was attached, all its resumptions in their order, how the body ended if it did, and with how many hooks
the module loaded if it did. -/
theorem log_tells_life {machine : Machine σ} {past : List (Machine σ)}
    (trail : Trail allowed machine past) (m : ModuleId) : machine.LogTells past m := by
  have life : (machine.world.lines m).filter LogLine.tellsBody =
      (machine.world.module m).lifeLines := by
    rw [World.filter_tellsBody_lines, trail.run.annals_eq]
    exact Module.filterMap_annals (trail.run.chronicle m) rfl
  rcases trail.loads m with ⟨unloaded, none⟩ | ⟨loaded, earlier, member, queue, loads, told⟩
  · refine ⟨life, fun _ => ?_, fun loaded => ?_⟩
    · rw [World.filter_tellsLoading_lines, none]
      rfl
    · cases unloaded.symm.trans loaded
  · refine ⟨life, fun unloaded => ?_, fun _ => ⟨earlier, member, queue, loads, ?_⟩⟩
    · cases unloaded.symm.trans loaded
    · rw [World.filter_tellsLoading_lines, told]
      rfl

/-- A module with a hook reads from another one, whose body writes a name that it does not declare. The
panic of the inner read goes through both bodies and is caught outside them; then the reader is
finished. -/
def recounted : Program Unit :=
  Code.program do
    let reader ← Code.create [.named "x"] .standard
    let writer ← Code.create [.named "y"] .standard
    let _ ← Code.importer reader fun _ => Code.note "hook" []
    let _ ← Code.executeStatements writer Code.unit [fun m => Code.settle m "typo" .undefined]
    let _ ← Code.executeStatements reader Code.unit
      [fun _ => Code.get writer "y", fun m => Code.settle m "x" .null]
    let _ ← (Code.get reader "x").outcome
    Code.finish reader

theorem log_tells_life_of_recounted :
    let machine := (Machine.start recounted (.empty .standard ())).after 30
    ∃ past, machine.LogTells past 0 ∧ machine.LogTells past 1 ∧
      (machine.world.module 0).state = .completed ∧ (machine.world.module 0).steps = 3 ∧
      (machine.world.module 0).isLoaded = true ∧ (machine.world.module 1).state = .failed ∧
      (machine.world.module 1).steps = 1 ∧ (machine.world.module 1).isLoaded = false := by
  intro machine
  have trail : Trail (fun _ => True) machine _ := (Trail.start .standard () trivial).after 30
  exact ⟨_, log_tells_life trail 0, log_tells_life trail 1, rfl, rfl, rfl, rfl, rfl, rfl⟩

end LiveBindings
