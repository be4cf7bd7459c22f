import LiveBindings.Proofs.Apart
import LiveBindings.Proofs.Setting

namespace LiveBindings

variable {σ : Type}

/-- A part of worlds. -/
structure Share (σ : Type) where
  modules : ModuleId → Prop
  /-- The functions that may be called. Another part may have them, too. -/
  functions : FunctionId → Prop
  bodies : BodyId → Prop
  /-- The identifiers that may be asked for. Another part may have them, too. -/
  identifiers : String → Prop
  Own : Type
  /-- What the programs' own state has for this part. -/
  own : σ → Own

/-- All that does not belong to one part, and the functions, the identifiers and the own state of another
one. -/
def Share.beside (mine other : Share σ) : Share σ where
  modules m := ¬ mine.modules m
  functions id := other.functions id ∨ ¬ mine.functions id
  bodies id := ¬ mine.bodies id
  identifiers id := other.identifiers id ∨ ¬ mine.identifiers id
  Own := other.Own
  own := other.own

/-- The worlds have the same part. The journals may differ. -/
structure World.Agrees (share : Share σ) (one other : World σ) : Prop where
  made : ∀ m, share.modules m → (m ∈ one ↔ m ∈ other)
  module : ∀ m, share.modules m → one.module m = other.module m
  function : ∀ id, share.functions id → one.functions[id]? = other.functions[id]?
  body : ∀ id, share.bodies id → one.bodies[id]? = other.bodies[id]?
  registry : ∀ id, share.identifiers id → one.registry.find? id = other.registry.find? id
  template : one.template = other.template
  own : share.own one.host = share.own other.host

/-- The modules that an action reads or writes. -/
def Action.subjects : Action → List ModuleId
  | .observe m | .configuration m | .settle m _ _ => [m]
  | .merge m source => [m, source]
  | _ => []

/-- The modules that the next operation of a program reads or writes. -/
def Program.subjects : Program σ → List ModuleId
  | .act action _ => action.subjects
  | .commit m _ _ | .execute m _ _ _ _ | .importer m _ _ => [m]
  | _ => []

def After.subjects : After → List ModuleId
  | .goOn demand => demand.subjects
  | .answer _ => []

/-- The modules that a frame reads or writes when it is handed an outcome. -/
def Frame.subjects : Frame σ → List ModuleId
  | .caller _ => []
  | .stepping m _ demand => m :: demand.subjects
  | .building m _ => [m]
  | .hooks m _ after => m :: after.subjects

theorem Program.mem_subjects (program : Program σ) {m : ModuleId} (subject : program.subject? = some m) :
    m ∈ program.subjects := by
  cases program with
  | act action next =>
    cases action with
    | settle | merge =>
      cases subject
      exact List.mem_cons_self
    | _ => cases subject
  | commit | execute | importer =>
    cases subject
    exact List.mem_cons_self
  | _ => cases subject

theorem Frame.mem_subjects (frame : Frame σ) {m : ModuleId} (owner : frame.owner? = some m) :
    m ∈ frame.subjects := by
  cases frame with
  | caller | hooks => cases owner
  | stepping | building =>
    cases owner
    exact List.mem_cons_self

/-- The modules that a transition is about. -/
def Machine.subjects (machine : Machine σ) : List ModuleId :=
  match machine.control, machine.stack with
  | .run (.done _), frame :: _ => frame.subjects
  | .run program, _ => program.subjects
  | .demand demand, _ => demand.subjects

/-- A module that the action makes is of the part, and so is every identifier that it asks for. One that is
registered anew does not belong to another part, too. -/
def Action.Keeps (mine other : Share σ) (world : World σ) : Action → Prop
  | .create .. => mine.modules world.modules.length
  | .prepare id _ => mine.identifiers id ∧
    (world.registry.find? id = none → mine.modules world.modules.length ∧ ¬ other.identifiers id)
  | .lookup id | .registered id => mine.identifiers id
  | .identifiers | .registrySize | .registryIsEmpty => ∀ id, mine.identifiers id
  | _ => True

/-- What the next operation makes, calls and resumes is of the part, and so is all that it reads and
writes of the programs' own state. -/
def Program.Keeps (mine other : Share σ) (world : World σ) : Program σ → Prop
  | .host change next =>
    (∀ s t, mine.own s = mine.own t →
      mine.own (change s) = mine.own (change t) ∧ next (change s) = next (change t)) ∧
    ∀ s, other.own (change s) = other.own s
  | .act action _ => action.Keeps mine other world
  | .function .. => mine.functions world.functions.length ∧ ¬ other.functions world.functions.length
  | .detach .. => mine.bodies world.bodies.length
  | .call callee _ _ => ∀ name id, callee = .function name id → mine.functions id
  | .resume id _ _ | .remaining id _ => mine.bodies id
  | _ => True

def Control.Keeps (mine other : Share σ) (world : World σ) : Control σ → Prop
  | .run program => program.Keeps mine other world
  | .demand _ => True

/-- The next transition concerns one part only, and not the own state of another one. -/
structure Machine.Within (mine other : Share σ) (machine : Machine σ) : Prop where
  subjects : ∀ m ∈ machine.subjects, mine.modules m
  keeps : machine.control.Keeps mine other machine.world

theorem Machine.mem_subjects_of_touches {machine : Machine σ} {m : ModuleId}
    (touches : machine.Touches m) : m ∈ machine.subjects := by
  obtain ⟨control, stack, world⟩ := machine
  cases control with
  | demand demand => exact touches
  | run program =>
    cases program with
    | done outcome =>
      cases stack with
      | nil => cases touches
      | cons frame rest => exact frame.mem_subjects touches
    | _ => exact Program.mem_subjects _ touches

namespace World.Agrees

variable {share : Share σ} {one other last : World σ} {m : ModuleId}

theorem refl (share : Share σ) (world : World σ) : world.Agrees share world where
  made _ _ := .rfl
  module _ _ := rfl
  function _ _ := rfl
  body _ _ := rfl
  registry _ _ := rfl
  template := rfl
  own := rfl

theorem symm (agrees : one.Agrees share other) : other.Agrees share one where
  made m mine := (agrees.made m mine).symm
  module m mine := (agrees.module m mine).symm
  function id mine := (agrees.function id mine).symm
  body id mine := (agrees.body id mine).symm
  registry id mine := (agrees.registry id mine).symm
  template := agrees.template.symm
  own := agrees.own.symm

theorem trans (early : one.Agrees share other) (late : other.Agrees share last) :
    one.Agrees share last where
  made m mine := (early.made m mine).trans (late.made m mine)
  module m mine := (early.module m mine).trans (late.module m mine)
  function id mine := (early.function id mine).trans (late.function id mine)
  body id mine := (early.body id mine).trans (late.body id mine)
  registry id mine := (early.registry id mine).trans (late.registry id mine)
  template := early.template.trans late.template
  own := early.own.trans late.own

theorem of_setting (setting : other.setting = one.setting)
    (module : ∀ m, share.modules m → one.module m = other.module m) : one.Agrees share other where
  made m _ := by rw [mem_iff, mem_iff, length_of_setting setting]
  module := module
  function id _ := congrArg (·.functions[id]?) setting.symm
  body id _ := congrArg (·.bodies[id]?) setting.symm
  registry id _ := congrArg (·.registry.find? id) setting.symm
  template := (congrArg World.template setting.symm :)
  own := congrArg (share.own ·.host) setting.symm

end World.Agrees

namespace World

variable {mine : Share σ} (other : Share σ) {world : World σ}

/-- What is made for one part is none of what there is beside it. -/
theorem beside_create (belongs : mine.modules world.modules.length) (names : List ExportName)
    (config : Config) : world.Agrees (mine.beside other) (world.create names config).2 := by
  have differs {m : ModuleId} (apart : ¬ mine.modules m) : m ≠ world.modules.length := fun same =>
    apart (same ▸ belongs)
  refine { Agrees.refl _ world with made := fun m apart => ?_, module := fun m apart => ?_ }
  · simp only [mem_iff, create, List.length_append, List.length_singleton]
    rw [Nat.lt_succ_iff_lt_or_eq, or_iff_left (differs apart)]
  · rw [module_create, if_neg (differs apart)]

theorem beside_prepare {id : String} (belongs : mine.identifiers id)
    (new : world.registry.find? id = none → mine.modules world.modules.length ∧ ¬ other.identifiers id)
    (names : List ExportName) : world.Agrees (mine.beside other) (world.prepare id names).2 := by
  unfold prepare
  split
  · exact .refl _ world
  · next unknown =>
    obtain ⟨made, apart⟩ := new unknown
    have creates := (world.log (.prepared id)).beside_create other made names
      { world.template with label := some id }
    refine { creates with registry := fun also beside => ?_ }
    have differs : also ≠ id := by
      rintro rfl
      exact beside.elim apart fun outside => outside belongs
    exact (Table.find?_insert_of_ne _ differs _).symm

theorem beside_define (belongs : mine.functions world.functions.length)
    (apart : ¬ other.functions world.functions.length) (name : String)
    (code : List Value → Program σ) :
    world.Agrees (mine.beside other) (world.define name code).2 := by
  refine { Agrees.refl _ world with function := fun id beside => ?_ }
  have differs : id ≠ world.functions.length := by
    rintro rfl
    exact beside.elim apart fun outside => outside belongs
  rw [define, getElem?_append_singleton, if_neg differs]

theorem beside_detach (belongs : mine.bodies world.bodies.length) (body : Body σ) :
    world.Agrees (mine.beside other) (world.detach body).2 := by
  refine { Agrees.refl _ world with body := fun id apart => ?_ }
  have differs : id ≠ world.bodies.length := fun same => apart (same ▸ belongs)
  rw [detach, getElem?_append_singleton, if_neg differs]

theorem beside_set {id : BodyId} (belongs : mine.bodies id) (body : Body σ) :
    world.Agrees (mine.beside other) { world with bodies := world.bodies.set id body } := by
  refine { Agrees.refl _ world with body := fun also apart => ?_ }
  have differs : id ≠ also := fun same => apart (same ▸ belongs)
  exact (List.getElem?_set_ne differs).symm

end World

namespace Machine.Within

variable {mine other : Share σ} {machine : Machine σ} {world : World σ}

/-- A transition that concerns one part leaves the rest alone. -/
theorem beside (within : machine.Within mine other) :
    machine.world.Agrees (mine.beside other) machine.step.world := by
  by_cases sets : ∃ program, machine.control = .run program ∧ program.Sets
  · obtain ⟨program, control, sets⟩ := sets
    have keeps := within.keeps
    obtain ⟨_, stack, world⟩ := machine
    cases control
    have same := World.Agrees.refl (mine.beside other) world
    cases program with
    | host change next => exact { same with own := (keeps.2 world.host).symm }
    | act action next =>
      cases action with
      | create names config => exact World.beside_create other keeps names config
      | prepare id names => exact World.beside_prepare other keeps.1 keeps.2 names
      | _ => cases sets
    | resume id m next =>
      simp only [step, stepProgram, resume]
      split
      · next body _ => exact World.beside_set other keeps body.advanced
      · exact same
    | function name code next => exact World.beside_define other keeps.1 keeps.2 name code
    | detach code ending next => exact World.beside_detach other keeps ⟨0, code, ending⟩
    | _ => cases sets
  · have setting : machine.step.world.setting = machine.world.setting :=
      setting_step fun program control changes => sets ⟨program, control, changes⟩
    refine .of_setting setting fun m apart => ?_
    by_cases made : m ∈ machine.world
    · refine (module_step made fun touches => apart ?_).symm
      exact within.subjects m (mem_subjects_of_touches touches)
    · have missing : m ∉ machine.step.world := by
        rwa [World.mem_iff, World.length_of_setting setting]
      rw [World.module_of_not_mem made, World.module_of_not_mem missing]

end Machine.Within

end LiveBindings
