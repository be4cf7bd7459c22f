import LiveBindings.Proofs.Apart
import LiveBindings.Proofs.Failure
import Mathlib.Data.List.Chain
import Mathlib.Data.List.Nodup

namespace LiveBindings

open Machine

variable {σ : Type} {allowed : Program σ → Prop}

namespace Fault

/-- The fault after it went through modules with the given labels, the outermost first. -/
def nest (labels : List String) (fault : Fault) : Fault := labels.foldr .failed fault

/-- The fault that a nest of failures began with. -/
def root : Fault → Fault
  | .failed _ cause => cause.root
  | fault => fault

@[simp]
theorem nest_cons (label : String) (labels : List String) (fault : Fault) :
    nest (label :: labels) fault = .failed label (nest labels fault) := rfl

theorem message_failed (label : String) (cause : Fault) :
    (failed label cause).message = "Module '" ++ label ++ "' failed: " ++ cause.message := rfl

theorem message_nest (labels : List String) (fault : Fault) : (nest labels fault).message =
    String.join (labels.map fun label => "Module '" ++ label ++ "' failed: ") ++ fault.message := by
  induction labels with
  | nil =>
    rw [List.map_nil, String.join_nil, String.empty_append]
    rfl
  | cons label rest ih =>
    simp only [nest_cons, message_failed, ih, List.map_cons, String.join_cons, String.append_assoc]

@[simp]
theorem isContractViolation_nest (labels : List String) (fault : Fault) :
    (nest labels fault).isContractViolation = fault.isContractViolation := by
  induction labels with
  | nil => rfl
  | cons label rest ih => exact ih

/-- A nest of failures is judged by the fault that it began with. -/
theorem isContractViolation_root (fault : Fault) :
    fault.root.isContractViolation = fault.isContractViolation := by
  induction fault with
  | failed label cause ih => exact ih
  | _ => rfl

theorem root_ne_failed (fault : Fault) (label : String) (cause : Fault) :
    fault.root ≠ .failed label cause := by
  induction fault with
  | failed other inner ih => exact ih
  | _ => exact nofun

end Fault

/-- What a read of a module that failed comes to: the value that was written, or else the fault. -/
def Reading.answer (how : Reading) (fault : Fault) : Option Value → Outcome
  | some value => .returned value
  | none =>
    match how with
    | .resolve => .failed fault
    | .get => if fault.isContractViolation then .panicked fault.message else .unit

theorem Demand.deliver_error (how : Reading) (target : Target) (world : World σ) (fault : Fault) :
    ∃ last, deliver how target world (.error fault) = (.answer (how.answer fault none), last) ∧
      last.modules = world.modules := by
  cases how with
  | resolve => exact ⟨world, rfl, rfl⟩
  | get =>
    simp only [deliver, Reading.answer]
    split
    · exact ⟨world, rfl, rfl⟩
    · exact ⟨_, rfl, World.modules_record ..⟩

/-- A read that has to ask a module which cannot go on hears of the fault. -/
theorem Demand.ends_read_of_failed {target : Target} {name : String} {fault : Fault}
    {world later : World σ} (how : Reading) (remote : target.remote = .ok name)
    (lacks : (world.module target.source).lacks name = true)
    (goes : world.Goes target.source (.failed fault) later) :
    ∃ last, (Control.demand (.read how target)).Ends world (how.answer fault none) last ∧
      last.modules = later.modules := by
  obtain ⟨last, delivers, same⟩ := Demand.deliver_error how target later fault
  have awaited : (Demand.read how target).awaited? world = some target.source := by
    rw [awaited?_of_remote how remote, if_pos lacks]
  refine ⟨last, fun stack => ?_, same⟩
  have reach := reaches_of_goes awaited goes stack
  simp only [react, delivers] at reach
  exact reach

/-- A module of an import chain, with the body that it was given. -/
structure Link (σ : Type) where
  place : ModuleId
  body : Body σ

namespace World

variable {world later : World σ} {links : List (Link σ)} {fault : Fault}

/-- The first step of a module's body reads a name that another module declares, and a fault of that
read becomes the step's own. -/
def Imports (world : World σ) (link source : Link σ) : Prop :=
  ∃ target name after, link.body.next link.place = .demand (.read .resolve target) after ∧
    target.source = source.place ∧ target.remote = .ok name ∧
    (world.module source.place).declares name = true ∧
    ∀ fault, after (.failed fault) = .done (.failed fault)

/-- The world once the first steps of some modules have begun, one inside the other. -/
def entered (world : World σ) (links : List (Link σ)) : World σ :=
  links.foldl (fun world link => world.begun link.place link.body) world

/-- Modules whose bodies have not begun and whose names are not settled, each of which imports from
the next one. The first step of the last one fails. -/
structure Chained (world : World σ) (links : List (Link σ)) (fault : Fault) : Prop where
  fresh : ∀ link ∈ links,
    (world.module link.place).life = ⟨⟨some link.body, .suspended, none⟩, false, 0⟩
  unsettled : ∀ link ∈ links, ∀ name, (world.module link.place).peek name = none
  distinct : (links.map Link.place).Nodup
  imports : links.IsChain world.Imports
  fails : ∃ last ran, links.getLast? = some last ∧
    (Control.run (last.body.next last.place)).Ends (world.entered links) (.failed fault) ran

/-- The fault after it went through the modules of a chain. -/
def nest (world : World σ) (links : List (Link σ)) (fault : Fault) : Fault :=
  .nest (links.map fun link => world.label link.place) fault

theorem congr_begun {α : Type} (part : Module σ → α) (world : World σ) (m n : ModuleId)
    (body : Body σ) (keeps : ∀ module : Module σ, part (module.resumed body) = part module) :
    part ((world.begun m body).module n) = part (world.module n) := by
  rw [begun, module_record]
  exact congr_update part world m n _ keeps

theorem label_begun (world : World σ) (m n : ModuleId) (body : Body σ) :
    (world.begun m body).label n = world.label n :=
  congr_begun Module.label world m n body fun _ => rfl

theorem begun_of_ne (world : World σ) {m n : ModuleId} (differs : n ≠ m) (body : Body σ) :
    (world.begun m body).module n = world.module n := by
  rw [begun, module_record, module_update_of_ne _ differs]

theorem Imports.begun {link source : Link σ} (imports : world.Imports link source) (m : ModuleId)
    (body : Body σ) : (world.begun m body).Imports link source := by
  obtain ⟨target, name, after, code, here, remote, declared, hands⟩ := imports
  refine ⟨target, name, after, code, here, remote, ?_, hands⟩
  rwa [congr_begun (Module.declares · name) world m source.place body fun _ => rfl]

namespace Chained

variable {first next : Link σ} {rest : List (Link σ)}

/-- Inside the first step of a chain, the other modules are a chain as well. -/
theorem tail (chained : world.Chained (first :: next :: rest) fault) :
    (world.begun first.place first.body).Chained (next :: rest) fault := by
  have distinct := chained.distinct
  rw [List.map_cons, List.nodup_cons] at distinct
  have other (link : Link σ) (member : link ∈ next :: rest) : link.place ≠ first.place :=
    fun same => distinct.1 (same ▸ List.mem_map_of_mem member)
  refine ⟨fun link member => ?_, fun link member name => ?_, distinct.2, ?_, ?_⟩
  · rw [begun_of_ne world (other link member)]
    exact chained.fresh link (List.mem_cons_of_mem _ member)
  · rw [begun_of_ne world (other link member)]
    exact chained.unsettled link (List.mem_cons_of_mem _ member) name
  · exact chained.imports.tail.imp fun _ _ imports => imports.begun first.place first.body
  · obtain ⟨last, ran, atEnd, ends⟩ := chained.fails
    exact ⟨last, ran, by rwa [List.getLast?_cons_cons] at atEnd, ends⟩

theorem enabled (chained : world.Chained (first :: rest) fault) :
    (Turn.began first.place first.body).Enabled world := by
  have life := chained.fresh first List.mem_cons_self
  have slot : (world.module first.place).slot = _ := congrArg Life.slot life
  exact ⟨congrArg Life.held life, by rw [slot]; rfl⟩

theorem made (chained : world.Chained links fault) {link : Link σ} (member : link ∈ links) :
    link.place ∈ world :=
  mem_of_free (congrArg Life.held (chained.fresh link member))

theorem lacks (chained : world.Chained links fault) {link : Link σ} (member : link ∈ links)
    {name : String} (declared : (world.module link.place).declares name = true) :
    (world.module link.place).lacks name = true := by
  simp [Module.lacks, Module.awaits, chained.unsettled link member name, declared]

/-- The first module of a chain fails with what its first step failed with. -/
theorem goes_of_ends (chained : world.Chained (first :: rest) fault) {cause : Fault} {ran : World σ}
    (ends : (Control.run (first.body.next first.place)).Ends
      (world.begun first.place first.body) (.failed cause) ran) :
    ∃ later, world.Goes first.place (.failed (.failed (world.label first.place) cause)) later ∧
      (later.module first.place).life = ⟨⟨none, .failed, some cause⟩, false, 1⟩ ∧
      ∀ m, m ≠ first.place → later.module m = ran.module m := by
  have resumes : world.Resumes first.place first.body (.failed cause) ran := ⟨chained.enabled, ends⟩
  have inside : first ∈ first :: rest := List.mem_cons_self
  have made := chained.made inside
  have fresh := chained.fresh first inside
  have label : ran.label first.place = world.label first.place := resumes.grows.label made
  have goes := Goes.failed resumes
  rw [label] at goes
  refine ⟨_, goes, ?_, fun m differs => ?_⟩
  · -- The module is held for the whole step, so nothing else begins a step of it meanwhile.
    have began : ((world.begun first.place first.body).module first.place) =
        (world.module first.place).resumed first.body := by
      rw [World.begun, module_record, module_update_self _ made]
    have still : first.place ∈ world.begun first.place first.body := by
      rwa [World.begun, mem_iff, modules_record, length_update]
    have kept := ends.life_of_held still (by rw [began]; rfl)
    rw [began] at kept
    have steps : (ran.module first.place).steps = 1 :=
      (Module.steps_of_life kept).trans (congrArg Nat.succ (congrArg Life.steps fresh))
    rw [module_record, module_update_self _ resumes.mem]
    exact congrArg (Life.mk _ false) steps
  · rw [module_record, module_update_of_ne _ differs]

/-- When a chain is entered, its first module fails with the nest of all, and each of the others has
failed with its part of it. -/
theorem exists_goes (chained : world.Chained (first :: rest) fault) :
    ∃ later, world.Goes first.place (.failed (world.nest (first :: rest) fault)) later ∧
      ∀ link tail, link :: tail <:+ first :: rest →
        (later.module link.place).life =
          ⟨⟨none, .failed, some (world.nest tail fault)⟩, false, 1⟩ := by
  induction rest generalizing world first with
  | nil =>
    obtain ⟨last, ran, atEnd, ends⟩ := chained.fails
    cases atEnd
    obtain ⟨later, goes, life, _⟩ := chained.goes_of_ends ends
    refine ⟨later, goes, fun link tail suffix => ?_⟩
    rcases List.suffix_cons_iff.mp suffix with same | beyond
    · cases same
      exact life
    · cases List.suffix_nil.mp beyond
  | cons next rest ih =>
    have inner := chained.tail
    obtain ⟨ran, goes, others⟩ := ih inner
    obtain ⟨target, name, after, code, here, remote, declared, hands⟩ :=
      (List.isChain_cons_cons.mp chained.imports).1.begun first.place first.body
    have labels (links : List (Link σ)) :
        (world.begun first.place first.body).nest links fault = world.nest links fault := by
      simp only [World.nest, label_begun]
    simp only [labels] at goes others
    -- The read inside the first step asks the next module, which fails.
    have lacks := inner.lacks List.mem_cons_self declared
    rw [← here] at lacks goes
    obtain ⟨last, reads, same⟩ := Demand.ends_read_of_failed .resolve remote lacks goes
    have ends : (Control.run (first.body.next first.place)).Ends
        (world.begun first.place first.body) (.failed (world.nest (next :: rest) fault)) last := by
      rw [code]
      refine reads.call ?_
      rw [Reading.answer, hands]
      exact Control.ends_done _ _
    obtain ⟨later, outer, life, apart⟩ := chained.goes_of_ends ends
    refine ⟨later, outer, fun link tail suffix => ?_⟩
    rcases List.suffix_cons_iff.mp suffix with whole | within
    · cases whole
      exact life
    · have distinct := (List.nodup_cons.mp chained.distinct).1
      have member : link ∈ next :: rest := within.subset List.mem_cons_self
      have differs : link.place ≠ first.place := fun same =>
        distinct (same ▸ List.mem_map_of_mem member)
      rw [apart _ differs, module_eq_of_modules_eq same]
      exact others link tail within

end Chained

/-- What is left of a module that fails at its first step: it tells the same fault to everyone who
asks, and has only the values that were written to its names, by the given events. -/
structure Fails (world : World σ) (m : ModuleId) (fault : Fault) (events : List Event) : Prop where
  state : (world.module m).state = .failed
  steps : (world.module m).steps = 1
  finish : (Control.demand (.finish m)).Ends world (.failed fault) world
  read : ∀ how target name, target.source = m → target.remote = .ok name →
    (world.module m).declares name = true →
      ∃ last, (Control.demand (.read how target)).Ends world
          (how.answer fault (events.findSome? (·.written? m name))) last ∧
        last.modules = world.modules

theorem Broken.fails {m : ModuleId} {cause : Fault} {events : List Event}
    (broken : world.Broken m cause) (steps : (world.module m).steps = 1)
    (written : ∀ name, (world.module m).peek name = events.findSome? (·.written? m name)) :
    world.Fails m (.failed (world.label m) cause) events := by
  refine ⟨broken.state, steps, broken.ends_finish, ?_⟩
  rintro how target name rfl remote declared
  cases settled : events.findSome? (·.written? target.source name) with
  | some value =>
    exact ⟨world, Demand.ends_read_of_settled how remote ((written name).trans settled), rfl⟩
  | none =>
    refine Demand.ends_read_of_failed how remote ?_ broken.goes
    simp [Module.lacks, Module.awaits, declared, (written name).trans settled]

end World

/-- When a chain of imports is entered through a read of its first module and its last module fails,
each module wraps the fault of the next one once: the read comes to the nest of them all. Whatever
runs afterwards, every module of the chain has failed at its first step. It tells its own part of the
nest to everyone who asks for a name that was not settled in the meantime; a name that was settled has
the value that was written last. What a nest says and how it is judged comes from the fault inside. -/
theorem faults_travel {machine : Machine σ} {turns : List (Turn σ)} {how : Reading}
    {target : Target} {name : String} {first : Link σ} {rest : List (Link σ)} {fault : Fault}
    (run : Run allowed machine turns) (asks : machine.control = .demand (.read how target))
    (chained : machine.world.Chained (first :: rest) fault) (source : target.source = first.place)
    (remote : target.remote = .ok name)
    (declared : (machine.world.module first.place).declares name = true) :
    (∃ later, (Control.demand (.read how target)).Ends machine.world
        (how.answer (machine.world.nest (first :: rest) fault) none) later ∧
      ∀ final, Machine.Precedes ⟨.answer (how.answer (machine.world.nest (first :: rest) fault) none),
          machine.stack, later⟩ final →
        ∃ events, final.world.journal = events ++ machine.world.journal ∧
          ∀ link tail, link :: tail <:+ first :: rest →
            final.world.Fails link.place (machine.world.nest (link :: tail) fault) events) ∧
    (∀ links, links <:+ first :: rest →
      (machine.world.nest links fault).message = String.join (links.map fun link =>
          "Module '" ++ machine.world.label link.place ++ "' failed: ") ++ fault.message ∧
        (machine.world.nest links fault).isContractViolation = fault.isContractViolation) ∧
    fault.isContractViolation = fault.root.isContractViolation ∧
    ∀ label cause, fault.root ≠ .failed label cause := by
  refine ⟨?_, fun links _ => ⟨?_, Fault.isContractViolation_nest ..⟩,
    fault.isContractViolation_root.symm, fault.root_ne_failed⟩
  · obtain ⟨control, stack, world⟩ := machine
    cases asks
    obtain ⟨failed, goes, lives⟩ := chained.exists_goes
    have lacks := chained.lacks List.mem_cons_self declared
    rw [← source] at lacks goes
    obtain ⟨later, ends, same⟩ := Demand.ends_read_of_failed how remote lacks goes
    refine ⟨later, ends, fun final precedes => ?_⟩
    obtain ⟨_, ran⟩ := run.reaches (ends stack)
    obtain ⟨early, begins⟩ := World.obeyed_replays.ends ends
    obtain ⟨late, goesOn⟩ := World.obeyed_replays.precedes ran precedes
    have replays := begins.trans goesOn
    refine ⟨late ++ early, replays.journal, fun link tail suffix => ?_⟩
    have member : link ∈ first :: rest := suffix.subset List.mem_cons_self
    have made := chained.made member
    have grows := (ends []).grows.trans precedes.grows
    have life := lives link tail suffix
    rw [← World.module_eq_of_modules_eq same] at life
    have slot : (later.module link.place).slot = _ := congrArg Life.slot life
    have kept := (ran.life_of_final precedes ((ends []).grows.mem made) (by rw [slot]; rfl)).2
    have broken : final.world.Broken link.place (world.nest tail fault) :=
      ⟨congrArg Life.held (kept.trans life), congrArg Life.slot (kept.trans life)⟩
    have fails : final.world.Fails link.place _ (late ++ early) :=
      broken.fails (congrArg Life.steps (kept.trans life)) fun name => by
        rw [replays.peek made, chained.unsettled link member name, Option.or_none]
    rwa [grows.label made] at fails
  · rw [World.nest, Fault.message_nest, List.map_map]
    rfl

/-- A statement that takes the name of another module. -/
def importFrom (source : ModuleId) : ModuleId → Code Unit Value := fun m => do
  Code.settle m "x" (← Code.resolve source "x")

/-- Three modules, the first two of which import from the one after them. The first one is read. -/
def importing (last : ModuleId → Code Unit Value) : Program Unit :=
  Code.program do
    let outer ← Code.create [.named "x"] { Config.standard with label := some "a.js" }
    let middle ← Code.create [.named "x"] { Config.standard with label := some "b.js" }
    let inner ← Code.create [.named "x"] { Config.standard with label := some "c.js" }
    let _ ← Code.executeStatements outer Code.unit [importFrom middle]
    let _ ← Code.executeStatements middle Code.unit [importFrom inner]
    let _ ← Code.executeStatements inner Code.unit [last]
    Code.resolve outer "x"

/-- The machine that is about to read the first of the three modules. -/
def imported (last : ModuleId → Code Unit Value) : Machine Unit :=
  (Machine.start (importing last) (.empty .standard ())).after 16

def importChain (last : ModuleId → Code Unit Value) : List (Link Unit) :=
  [(0, importFrom 1), (1, importFrom 2), (2, last)].map fun (place, statement) =>
    ⟨place, ⟨0, Code.bodyOf [statement], .afterStatements 1⟩⟩

def importModules (last : ModuleId → Code Unit Value) : List (Module Unit) :=
  (importChain last).zipWith (fun link label =>
    (Module.fresh [.named "x"] { Config.standard with label := some label }).attach link.body)
    ["a.js", "b.js", "c.js"]

theorem chained_importModules {last : ModuleId → Code Unit Value} {world ran : World Unit}
    {fault : Fault} (made : world.modules = importModules last)
    (fails : (Control.run (last 2).program).Ends (world.entered (importChain last))
      (.failed fault) ran) : world.Chained (importChain last) fault where
  fresh := by
    simp only [importChain, List.map_cons, List.map_nil, List.forall_mem_cons, World.module, made]
    exact ⟨rfl, rfl, rfl, List.forall_mem_nil _⟩
  unsettled := by
    simp only [importChain, List.map_cons, List.map_nil, List.forall_mem_cons, World.module, made]
    exact ⟨fun _ => rfl, fun _ => rfl, fun _ => rfl, List.forall_mem_nil _⟩
  distinct := show [0, 1, 2].Nodup by decide
  imports := by
    have takes {place source : ModuleId} {statement : ModuleId → Code Unit Value}
        (declared : (world.module source).declares "x" = true) :
        world.Imports ⟨place, ⟨0, Code.bodyOf [importFrom source], .afterStatements 1⟩⟩
          ⟨source, ⟨0, Code.bodyOf [statement], .afterStatements 1⟩⟩ :=
      ⟨.named source "x", "x", _, rfl, rfl, rfl, declared, fun _ => rfl⟩
    refine .cons_cons (takes ?_) (.cons_cons (takes ?_) (.singleton _)) <;>
      rw [World.module, made] <;> rfl
  fails := ⟨_, ran, rfl, fails⟩

/-- A module of some library writes a name that it does not declare. -/
def missingName : Fault := .failed "lib.js" (.undeclaredExport "lib.js" "y")

theorem faults_travel_of_imported :
    let machine := imported fun _ => Code.fail missingName
    let links := importChain fun _ => Code.fail missingName
    let nest := Fault.failed "a.js" (.failed "b.js" (.failed "c.js" missingName))
    machine.control = .demand (.read .resolve (.named 0 "x")) ∧
      machine.world.Chained links missingName ∧ machine.world.nest links missingName = nest ∧
      nest.isContractViolation = true ∧
      ∃ later, (Control.demand (.read .resolve (.named 0 "x"))).Ends machine.world (.failed nest) later ∧
        ∀ final, Machine.Precedes ⟨.answer (.failed nest), machine.stack, later⟩ final →
          ∃ events, final.world.journal = events ++ machine.world.journal ∧
            ∀ link tail, link :: tail <:+ links →
              final.world.Fails link.place (machine.world.nest (link :: tail) missingName) events := by
  intro machine links nest
  have run : Run (fun _ => True) machine _ := (Run.start .standard () trivial).after 16
  have chained : machine.world.Chained links missingName :=
    chained_importModules rfl fun stack => Control.ends_done _ _ stack
  have asks : machine.control = .demand (.read .resolve (.named 0 "x")) := rfl
  have travels := faults_travel run asks chained rfl rfl rfl
  exact ⟨asks, chained, rfl, rfl, travels.1⟩

/-- A statement that settles the name of its module, and fails. -/
def settleAndFail : ModuleId → Code Unit Value := fun m => do
  let _ ← Code.settle m "x" .null
  Code.fail (.body "late")

/-- The machine that reads the first of three modules, the last one of which settles its name in the
step that fails. -/
def hastening : Machine Unit :=
  ⟨.demand (.read .resolve (.named 0 "x")), [], (imported settleAndFail).world⟩

def hastened : Machine Unit := hastening.after 11

/-- Who reads a name that was settled in the step that failed is given its value, though the modules
that took the name hear of the failure. -/
theorem settled_name_of_failed :
    hastening.world.Chained (importChain settleAndFail) (.body "late") ∧
      hastening.control.Ends hastening.world
        (.failed (hastening.world.nest (importChain settleAndFail) (.body "late"))) hastened.world ∧
      (hastened.world.module 2).state = .failed ∧
      (hastened.world.module 2).declares "x" = true ∧
      (Control.demand (.read .resolve (.named 2 "x"))).Ends hastened.world (.returned .null)
        hastened.world ∧
      ¬ ∃ last, (Control.demand (.read .resolve (.named 2 "x"))).Ends hastened.world
        (.failed (hastening.world.nest ((importChain settleAndFail).drop 2) (.body "late"))) last := by
  have fails : (Control.run (settleAndFail 2).program).Ends
      (hastening.world.entered (importChain settleAndFail)) (.failed (.body "late")) _ :=
    Control.ends_of_reaches (Machine.reaches_after _ 1)
  have ended : hastened.outcome? =
      some (.failed (hastening.world.nest (importChain settleAndFail) (.body "late"))) := rfl
  have ends := Control.ends_iff.mpr (Machine.run?_of_after ended)
  have reads : (Control.demand (.read .resolve (.named 2 "x"))).Ends hastened.world
      (.returned .null) hastened.world := Demand.ends_read_of_settled .resolve rfl rfl
  refine ⟨chained_importModules rfl fails, ends, rfl, rfl, reads, ?_⟩
  rintro ⟨_, again⟩
  cases (reads.unique again).1

end LiveBindings
