import LiveBindings.Proofs.Mirror
import LiveBindings.Proofs.Reach

namespace LiveBindings

variable {σ : Type}

theorem World.count_of_setting {before after : World σ} (same : after.setting = before.setting)
    (kind : Kind) : after.count kind = before.count kind := by
  cases kind with
  | module => exact length_of_setting same
  | function => exact congrArg (·.functions.length) same
  | body => exact congrArg (·.bodies.length) same

theorem World.count_prepare (world : World σ) (id : String) (names : List ExportName) (kind : Kind) :
    (world.prepare id names).2.count kind =
      world.count kind + if (Action.prepare id names).madeKind? world = some kind then 1 else 0 := by
  unfold prepare
  cases found : world.registry.find? id with
  | some m => simp [Action.madeKind?, found]
  | none => cases kind <;> simp [Action.madeKind?, found, count, create, log]

namespace Machine

/-- A transition makes what it is told to make, one of it, and nothing else. -/
theorem count_step (machine : Machine σ) (kind : Kind) : machine.step.world.count kind =
    machine.world.count kind + if machine.madeKind? = some kind then 1 else 0 := by
  by_cases sets : ∃ program, machine.control = .run program ∧ program.Sets
  · obtain ⟨program, control, sets⟩ := sets
    obtain ⟨_, stack, world⟩ := machine
    cases control
    cases program with
    | act action next =>
      cases action with
      | create names config => cases kind <;> simp [step, stepProgram, Action.perform, World.create,
          World.count, madeKind?, Program.madeKind?, Action.madeKind?]
      | prepare id names => exact world.count_prepare id names kind
      | _ => cases sets
    | host change next => rfl
    | resume id m next =>
      simp only [step, stepProgram, resume]
      split
      · cases kind <;> simp [World.count, madeKind?, Program.madeKind?]
      · rfl
    | function name code next => cases kind <;> simp [step, stepProgram, World.define, World.count,
          madeKind?, Program.madeKind?]
    | detach code ending next => cases kind <;> simp [step, stepProgram, World.detach, World.count,
          madeKind?, Program.madeKind?]
    | _ => cases sets
  · have setting : machine.step.world.setting = machine.world.setting :=
      setting_step fun program control changes => sets ⟨program, control, changes⟩
    have none : machine.madeKind? = none := by
      obtain ⟨control, stack, world⟩ := machine
      cases control with
      | demand asked => rfl
      | run program =>
        cases program with
        | act action next =>
          cases action with
          | create | prepare => exact absurd ⟨_, rfl, trivial⟩ sets
          | _ => rfl
        | function | detach => exact absurd ⟨_, rfl, trivial⟩ sets
        | _ => rfl
    rw [World.count_of_setting setting, none]
    rfl

theorem count_le_of_reaches {first last : Machine σ} (reach : first.Reaches last) (kind : Kind) :
    first.world.count kind ≤ last.world.count kind := by
  induction reach with
  | refl machine => exact Nat.le_refl _
  | @step first last _ ih =>
    rw [first.count_step kind] at ih
    exact Nat.le_of_add_right_le ih

end Machine

namespace Share

/-- All that a world has. -/
def whole : Share σ where
  modules _ := True
  functions _ := True
  bodies _ := True
  identifiers _ := True
  Own := σ
  own := id

/-- The part that has nothing. -/
def nothing : Share σ where
  modules _ := False
  functions _ := False
  bodies _ := False
  identifiers _ := False
  Own := Unit
  own _ := ()

/-- A part of worlds with what it has under other numbers. -/
def image [MulAction Renaming σ] (π : Renaming) (share : Share σ) : Share σ where
  modules m := share.modules ((π .module).symm m)
  functions id := share.functions ((π .function).symm id)
  bodies id := share.bodies ((π .body).symm id)
  identifiers := share.identifiers
  Own := share.Own
  own host := share.own (π⁻¹ • host)

section Image

variable [MulAction Renaming σ] (π : Renaming) (share : Share σ)

@[simp]
theorem modules_image (m : ModuleId) : (share.image π).modules (π .module m) = share.modules m :=
  congrArg share.modules ((π .module).symm_apply_apply m)

@[simp]
theorem functions_image (id : FunctionId) :
    (share.image π).functions (π .function id) = share.functions id :=
  congrArg share.functions ((π .function).symm_apply_apply id)

@[simp]
theorem bodies_image (id : BodyId) : (share.image π).bodies (π .body id) = share.bodies id :=
  congrArg share.bodies ((π .body).symm_apply_apply id)

end Image

/-- A part of a part. -/
structure Contains (whole part : Share σ) : Prop where
  modules : ∀ m, part.modules m → whole.modules m
  functions : ∀ id, part.functions id → whole.functions id
  bodies : ∀ id, part.bodies id → whole.bodies id
  identifiers : ∀ id, part.identifiers id → whole.identifiers id
  own : ∀ s t, whole.own s = whole.own t → part.own s = part.own t

theorem Contains.image [MulAction Renaming σ] {whole part : Share σ} (contains : whole.Contains part)
    (π : Renaming) : (whole.image π).Contains (part.image π) where
  modules _ := contains.modules _
  functions _ := contains.functions _
  bodies _ := contains.bodies _
  identifiers := contains.identifiers
  own _ _ := contains.own _ _

end Share

/-- A transition that is about no module that a part lacks is within the part, if the part lacks nothing but
modules. -/
theorem Machine.within_of_subjects {share : Share σ} {machine : Machine σ}
    (functions : ∀ id, share.functions id) (bodies : ∀ id, share.bodies id)
    (identifiers : ∀ id, share.identifiers id) (own : ∀ s t, share.own s = share.own t → s = t)
    (new : share.modules machine.world.modules.length)
    (subjects : ∀ m ∈ machine.subjects, share.modules m) : machine.Within share .nothing := by
  refine ⟨subjects, ?_⟩
  obtain ⟨control, stack, world⟩ := machine
  cases control with
  | demand asked => trivial
  | run program =>
    cases program with
    | host change next =>
      refine ⟨fun s t same => ?_, fun _ => rfl⟩
      rw [own s t same]
      exact ⟨rfl, rfl⟩
    | act action next =>
      cases action with
      | create => exact new
      | prepare => exact ⟨identifiers _, fun _ => ⟨new, not_false⟩⟩
      | lookup | registered => exact identifiers _
      | identifiers | registrySize | registryIsEmpty => exact identifiers
      | _ => trivial
    | function => exact ⟨functions _, not_false⟩
    | detach => exact bodies _
    | call => exact fun _ id _ => functions id
    | resume | remaining => exact bodies _
    | _ => trivial

theorem World.Agrees.narrow {whole part : Share σ} {one other : World σ} (agrees : one.Agrees whole other)
    (contains : whole.Contains part) : one.Agrees part other where
  made m inside := agrees.made m (contains.modules m inside)
  module m inside := agrees.module m (contains.modules m inside)
  function id inside := agrees.function id (contains.functions id inside)
  body id inside := agrees.body id (contains.bodies id inside)
  registry id inside := agrees.registry id (contains.identifiers id inside)
  template := agrees.template
  own := contains.own _ _ agrees.own

section Image

variable [MulAction Renaming σ] {π : Renaming} {share mine apart : Share σ} {one middle other world : World σ}

theorem World.Agrees.mirrors (agrees : one.Agrees share middle) (mirrors : middle.Mirrors π share other) :
    one.Mirrors π share other where
  made m mine := (agrees.made m mine).trans (mirrors.made m mine)
  module m mine := by rw [mirrors.module m mine, agrees.module m mine]
  function id mine := by rw [mirrors.function id mine, agrees.function id mine]
  body id mine := by rw [mirrors.body id mine, agrees.body id mine]
  registry id mine := by rw [mirrors.registry id mine, agrees.registry id mine]
  template := mirrors.template.trans agrees.template.symm
  own := mirrors.own.trans agrees.own.symm

theorem World.Mirrors.agrees (mirrors : one.Mirrors π share middle)
    (agrees : middle.Agrees (share.image π) other) : one.Mirrors π share other := by
  have modules {m : ModuleId} (mine : share.modules m) : (share.image π).modules (π .module m) := by
    rwa [share.modules_image]
  have functions {id : FunctionId} (mine : share.functions id) :
      (share.image π).functions (π .function id) := by rwa [share.functions_image]
  have bodies {id : BodyId} (mine : share.bodies id) : (share.image π).bodies (π .body id) := by
    rwa [share.bodies_image]
  exact {
    made := fun m mine => (mirrors.made m mine).trans (agrees.made _ (modules mine))
    module := fun m mine => (agrees.module _ (modules mine)).symm.trans (mirrors.module m mine)
    function := fun id mine => (agrees.function _ (functions mine)).symm.trans (mirrors.function id mine)
    body := fun id mine => (agrees.body _ (bodies mine)).symm.trans (mirrors.body id mine)
    registry := fun id mine => (agrees.registry id mine).symm.trans (mirrors.registry id mine)
    template := agrees.template.symm.trans mirrors.template
    own := agrees.own.symm.trans mirrors.own }

end Image

section Subjects

variable (π : Renaming)

theorem Demand.subjects_rename (demand : Demand) :
    (demand.rename π).subjects = demand.subjects.map (π .module) := by
  cases demand <;> simp [rename, subjects]

theorem After.subjects_rename (after : After) :
    (after.rename π).subjects = after.subjects.map (π .module) := by
  cases after with
  | goOn demand => exact demand.subjects_rename π
  | answer outcome => rfl

variable [MulAction Renaming σ]

theorem Frame.subjects_rename (frame : Frame σ) :
    (frame.rename π).subjects = frame.subjects.map (π .module) := by
  cases frame with
  | caller | building => rfl
  | stepping m verdict demand => exact congrArg (_ :: ·) (demand.subjects_rename π)
  | hooks m rest after => exact congrArg (_ :: ·) (after.subjects_rename π)

theorem Machine.subjects_twin (machine : Machine σ) (world : World σ) :
    (machine.twin π world).subjects = machine.subjects.map (π .module) := by
  obtain ⟨control, stack, before⟩ := machine
  cases control with
  | demand asked => exact asked.subjects_rename π
  | run program =>
    cases program with
    | done outcome =>
      cases stack with
      | nil => rfl
      | cons frame rest => exact frame.subjects_rename π
    | act action next => cases action <;> rfl
    | _ => rfl

end Subjects

namespace Machine.Within

variable [MulAction Renaming σ] {π : Renaming} {mine apart : Share σ} {machine : Machine σ} {world : World σ}

/-- What is made under the other numbers has the same kind. -/
theorem madeKind?_twin (within : machine.Within mine apart) (mirrors : machine.world.Mirrors π mine world) :
    (machine.twin π world).madeKind? = machine.madeKind? := by
  obtain ⟨control, stack, before⟩ := machine
  cases control with
  | demand asked => rfl
  | run program =>
    cases program with
    | act action next =>
      cases action with
      | prepare id names =>
        have same := mirrors.registry id within.keeps.1
        change Action.madeKind? world (.prepare id names) = Action.madeKind? before (.prepare id names)
        simp only [Action.madeKind?, same, Option.isSome_map]
      | _ => rfl
    | _ => rfl

/-- The same transition under the other numbers concerns the same part under these. -/
theorem image (within : machine.Within mine apart) (mirrors : machine.world.Mirrors π mine world)
    (number : ∀ kind, machine.madeKind? = some kind →
      π kind (machine.world.count kind) = world.count kind) :
    (machine.twin π world).Within (mine.image π) (apart.image π) := by
  obtain ⟨subjects, keeps⟩ := within
  refine ⟨?_, ?_⟩
  · rw [subjects_twin]
    simpa using subjects
  · obtain ⟨control, stack, before⟩ := machine
    cases control with
    | demand asked => trivial
    | run program =>
      cases program with
      | host change next =>
        have told (state : σ) := inv_smul_smul π (change (π⁻¹ • state))
        refine ⟨fun s t same => ?_, fun s => (congrArg apart.own (told s)).trans (keeps.2 _)⟩
        obtain ⟨own, goesOn⟩ := keeps.1 _ _ same
        refine ⟨(congrArg mine.own (told s)).trans (own.trans (congrArg mine.own (told t)).symm), ?_⟩
        exact congrArg (Program.rename π)
          ((congrArg next (told s)).trans (goesOn.trans (congrArg next (told t)).symm))
      | act action next =>
        cases action with
        | create names config =>
          have number : π .module before.modules.length = world.modules.length := number .module rfl
          have belongs := (mine.modules_image π _).mpr keeps
          rwa [number] at belongs
        | prepare id names =>
          refine ⟨keeps.1, fun unknown => ?_⟩
          have same := mirrors.registry id keeps.1
          have new : before.registry.find? id = none := Option.map_eq_none_iff.mp (same.symm.trans unknown)
          have number : π .module before.modules.length = world.modules.length :=
            number .module (by simp [madeKind?, Program.madeKind?, Action.madeKind?, new])
          obtain ⟨belongs, beyond⟩ := keeps.2 new
          have belongs := (mine.modules_image π _).mpr belongs
          rw [number] at belongs
          exact ⟨belongs, beyond⟩
        | _ => exact keeps
      | function name code next =>
        have number : π .function before.functions.length = world.functions.length :=
          number .function rfl
        have belongs := (mine.functions_image π _).mpr keeps.1
        have beyond := fun there => keeps.2 ((apart.functions_image π _).mp there)
        rw [number] at belongs beyond
        exact ⟨belongs, beyond⟩
      | detach code ending next =>
        have number : π .body before.bodies.length = world.bodies.length := number .body rfl
        have belongs := (mine.bodies_image π _).mpr keeps
        rwa [number] at belongs
      | call callee arguments next =>
        intro name id same
        cases callee with
        | function name' id' =>
          cases same
          exact (mine.functions_image π id').mpr (keeps _ id' rfl)
        | _ => cases same
      | resume id m next => exact (mine.bodies_image π id).mpr keeps
      | remaining id next => exact (mine.bodies_image π id).mpr keeps
      | _ => trivial

end Machine.Within

/-- Transitions that concern one part are made in every world that has the same part under other numbers,
if the renaming tells the numbers of what they make. They make as many of each kind there, and leave the rest
alone. -/
theorem Machine.Reaches.mirror [MulAction Renaming σ] {π : Renaming} {mine apart : Share σ}
    {first last : Machine σ} {world : World σ} (reach : first.Reaches last)
    (within : ∀ machine, first.Reaches machine → machine.Within mine apart)
    (mirrors : first.world.Mirrors π mine world)
    (number : ∀ kind i, first.world.count kind + i < last.world.count kind →
      π kind (first.world.count kind + i) = world.count kind + i) :
    ∃ later, (first.twin π world).Reaches (last.twin π later) ∧ last.world.Mirrors π mine later ∧
      (∀ kind, later.count kind + first.world.count kind = world.count kind + last.world.count kind) ∧
      world.Agrees ((mine.beside apart).image π) later := by
  induction reach generalizing world with
  | refl machine => exact ⟨world, .refl _, mirrors, fun _ => rfl, .refl _ world⟩
  | @step first last reach ih =>
    have now := within first (.refl first)
    have counted (kind : Kind) := first.count_step kind
    have next (kind : Kind) (makes : first.madeKind? = some kind) :
        π kind (first.world.count kind) = world.count kind := by
      have bound := count_le_of_reaches reach kind
      rw [counted kind, if_pos makes] at bound
      exact number kind 0 bound
    have stepped := now.mirrors mirrors next
    have counted' (kind : Kind) := (first.twin π world).count_step kind
    rw [now.madeKind?_twin mirrors] at counted'
    have beside : world.Agrees ((mine.beside apart).image π) (first.twin π world).step.world :=
      (now.image mirrors next).beside
    obtain ⟨later, reach', still, counts, rest⟩ := ih (fun machine reach => within machine (.step reach))
      stepped.world fun kind i bound => by
        rw [counted kind, Nat.add_assoc] at bound ⊢
        rw [counted' kind, number kind _ bound, ← Nat.add_assoc]
        rfl
    rw [← stepped.eq_twin] at reach'
    refine ⟨later, .step reach', still, fun kind => ?_, beside.trans rest⟩
    have total := counts kind
    rw [counted kind, counted' kind] at total
    change later.count kind + (_ + _) = (world.count kind + _) + _ at total
    omega

end LiveBindings
