import LiveBindings.Operation
import LiveBindings.Proofs.Calls
import LiveBindings.Proofs.Numbering
import LiveBindings.Proofs.Placement
import Mathlib.Algebra.Module.PUnit

namespace LiveBindings

variable {σ : Type}

namespace Share

/-- No module and no body belongs to both parts, and together they have all of the programs' own state. -/
structure Apart (one other : Share σ) : Prop where
  modules : ∀ m, one.modules m → ¬ other.modules m
  bodies : ∀ id, one.bodies id → ¬ other.bodies id
  own : ∀ s t, one.own s = one.own t → other.own s = other.own t → s = t

theorem Apart.symm {one other : Share σ} (apart : one.Apart other) : other.Apart one where
  modules m theirs ours := apart.modules m ours theirs
  bodies id theirs ours := apart.bodies id ours theirs
  own s t theirs ours := apart.own s t ours theirs

/-- What belongs to neither of two parts. -/
def neither (one other : Share σ) : Share σ where
  modules m := ¬ one.modules m ∧ ¬ other.modules m
  functions id := ¬ one.functions id ∧ ¬ other.functions id
  bodies id := ¬ one.bodies id ∧ ¬ other.bodies id
  identifiers id := ¬ one.identifiers id ∧ ¬ other.identifiers id
  Own := Unit
  own _ := ()

variable {one other : Share σ}

theorem Apart.contains (apart : one.Apart other) : (one.beside other).Contains other where
  modules m theirs ours := apart.modules m ours theirs
  functions _ := .inl
  bodies id theirs ours := apart.bodies id ours theirs
  identifiers _ := .inl
  own _ _ same := same

theorem contains_left (one other : Share σ) : (one.beside other).Contains (one.neither other) where
  modules _ neither := neither.1
  functions _ neither := .inr neither.1
  bodies _ neither := neither.1
  identifiers _ neither := .inr neither.1
  own _ _ _ := rfl

theorem contains_right (one other : Share σ) : (other.beside one).Contains (one.neither other) where
  modules _ neither := neither.2
  functions _ neither := .inr neither.2
  bodies _ neither := neither.2
  identifiers _ neither := .inr neither.2
  own _ _ _ := rfl

theorem contains_whole (share : Share σ) : whole.Contains share where
  modules _ _ := trivial
  functions _ _ := trivial
  bodies _ _ := trivial
  identifiers _ _ := trivial
  own _ _ := congrArg share.own

end Share

/-- The renaming leaves what was made in a world its numbers. -/
def World.FixedBy (world : World σ) (π : Renaming) : Prop := ∀ kind, ∀ k < world.count kind, π kind k = k

/-- What a world has speaks only of what was made in it. An empty world is closed, and programs that know no
more than what was made keep it so. -/
def World.Closed [MulAction Renaming σ] (world : World σ) : Prop :=
  ∀ π, world.FixedBy π → world.Mirrors π .whole world

namespace World.Mirrors

variable [MulAction Renaming σ] {π : Renaming} {one other : Share σ} {before after : World σ}

theorem narrow {share part : Share σ} (mirrors : before.Mirrors π share after)
    (contains : share.Contains part) : before.Mirrors π part after where
  made m inside := mirrors.made m (contains.modules m inside)
  module m inside := mirrors.module m (contains.modules m inside)
  function id inside := mirrors.function id (contains.functions id inside)
  body id inside := mirrors.body id (contains.bodies id inside)
  registry id inside := mirrors.registry id (contains.identifiers id inside)
  template := mirrors.template
  own := contains.own _ _ mirrors.own

/-- Two parts and the rest are the whole. -/
theorem of_parts (apart : one.Apart other) (ours : before.Mirrors π one after)
    (theirs : before.Mirrors π other after) (rest : before.Mirrors π (one.neither other) after) :
    before.Mirrors π .whole after := by
  have parts {mine yours goal : Prop} (left : mine → goal) (right : yours → goal)
      (neither : ¬ mine ∧ ¬ yours → goal) : goal := by
    by_cases inLeft : mine
    · exact left inLeft
    · by_cases inRight : yours
      · exact right inRight
      · exact neither ⟨inLeft, inRight⟩
  exact {
    made := fun m _ => parts (ours.made m) (theirs.made m) (rest.made m)
    module := fun m _ => parts (ours.module m) (theirs.module m) (rest.module m)
    function := fun id _ => parts (ours.function id) (theirs.function id) (rest.function id)
    body := fun id _ => parts (ours.body id) (theirs.body id) (rest.body id)
    registry := fun id _ => parts (ours.registry id) (theirs.registry id) (rest.registry id)
    template := ours.template
    own := apart.own _ _ ours.own theirs.own }

end World.Mirrors

namespace Machine

variable {mine other : Share σ} {first last : Machine σ}

theorem within_whole (machine : Machine σ) : machine.Within .whole .nothing :=
  within_of_subjects (fun _ => trivial) (fun _ => trivial) (fun _ => trivial) (fun _ _ => id) trivial
    fun _ _ => trivial

/-- Transitions that concern one part leave the rest alone. -/
theorem Reaches.beside (reach : first.Reaches last)
    (within : ∀ machine, first.Reaches machine → machine.Within mine other) :
    first.world.Agrees (mine.beside other) last.world := by
  induction reach with
  | refl machine => exact .refl _ machine.world
  | step _ ih =>
    exact (within _ (.refl _)).beside.trans (ih fun machine reach => within machine (.step reach))

end Machine

theorem World.closed_empty [MulAction Renaming σ] (template : Config) {host : σ}
    (fixed : ∀ π : Renaming, π • host = host) : (World.empty template host).Closed := fun π _ => {
  made := fun _ _ => iff_of_false (Nat.not_lt_zero _) (Nat.not_lt_zero _)
  module := fun _ _ => rfl
  function := fun _ _ => rfl
  body := fun _ _ => rfl
  registry := fun _ _ => rfl
  template := rfl
  own := fixed π⁻¹ }

theorem World.Closed.run? [MulAction Renaming σ] {world later : World σ} {program : Program σ}
    {outcome : Outcome} {limit : Nat} (closed : world.Closed)
    (knows : ∀ π, world.FixedBy π → program.rename π = program)
    (result : (Machine.start program world).run? limit = some (outcome, later)) : later.Closed := by
  intro π fixes
  have reach := Machine.reaches_of_run? result
  have before : world.FixedBy π := fun kind k made =>
    fixes kind k (Nat.lt_of_lt_of_le made (Machine.count_le_of_reaches reach kind))
  obtain ⟨later', reach', same, _⟩ := reach.mirror (fun machine _ => machine.within_whole)
    (closed π before) fun kind i => fixes kind _
  have start : (Machine.start program world).twin π world = .start program world :=
    congrArg (fun program => Machine.start program world) (knows π before)
  rw [start] at reach'
  have unique := reach'.unique rfl reach rfl
  rwa [show later' = later from congrArg Machine.world unique] at same

/-- Programs that are run from outside one after another, all of whose transitions concern one part of the
world. -/
inductive PerformsWithin (mine other : Share σ) : World σ → List (Performance σ) → World σ → Prop
  | nil {world} : PerformsWithin mine other world [] world
  | cons {world middle later performance rest limit} :
      (Machine.start performance.program world).run? limit = some (performance.outcome, middle) →
      (∀ machine, (Machine.start performance.program world).Reaches machine → machine.Within mine other) →
      middle.count = world.count + performance.made →
      PerformsWithin mine other middle rest later →
      PerformsWithin mine other world (performance :: rest) later

/-- One more program that ends after a number of transitions, all of which concern the part. -/
theorem PerformsWithin.after {mine other : Share σ} {world later : World σ} {performance : Performance σ}
    {rest : List (Performance σ)} {count : Nat}
    (within : ∀ i ≤ count, ((Machine.start performance.program world).after i).Within mine other)
    (ended : ((Machine.start performance.program world).after count).outcome? = some performance.outcome)
    (made : ((Machine.start performance.program world).after count).world.count =
      world.count + performance.made)
    (goesOn : PerformsWithin mine other
      ((Machine.start performance.program world).after count).world rest later) :
    PerformsWithin mine other world (performance :: rest) later := by
  obtain ⟨_, result⟩ := Machine.run?_of_after ended
  refine .cons result (fun machine reach => ?_) made goesOn
  obtain ⟨i, bound, rfl⟩ := reach.exists_after ended
  exact within i bound

section PerformsWithin

variable {mine other : Share σ} {world later : World σ} {performed : List (Performance σ)}

theorem PerformsWithin.beside (performs : PerformsWithin mine other world performed later) :
    world.Agrees (mine.beside other) later := by
  induction performs with
  | nil => exact .refl _ _
  | cons result within _ _ ih => exact ((Machine.reaches_of_run? result).beside within).trans ih

theorem PerformsWithin.count_eq (performs : PerformsWithin mine other world performed later) :
    later.count = world.count + madeBy performed := by
  induction performs with
  | nil => rfl
  | cons _ _ made _ ih => rw [ih, made, add_assoc, madeBy]

end PerformsWithin

/-- What is performed in a world is performed in every world that has the same part under other numbers. -/
theorem Performance.mirror [MulAction Renaming σ] {π : Renaming} {mine other : Share σ}
    {performance : Performance σ} {before after world : World σ} {limit : Nat}
    (result : (Machine.start performance.program before).run? limit = some (performance.outcome, after))
    (within : ∀ machine, (Machine.start performance.program before).Reaches machine →
      machine.Within mine other)
    (made : after.count = before.count + performance.made) (mirrors : before.Mirrors π mine world)
    (number : ∀ kind, ∀ i < performance.made kind, π kind (before.count kind + i) = world.count kind + i) :
    ∃ later limit, (Machine.start (performance.program.rename π) world).run? limit =
        some (π • performance.outcome, later) ∧
      after.Mirrors π mine later ∧ later.count = world.count + performance.made ∧
      world.Agrees ((mine.beside other).image π) later := by
  have reach := Machine.reaches_of_run? result
  obtain ⟨later, reach', same, counts, beside⟩ := reach.mirror within mirrors fun kind i bound => by
    change _ < after.count kind at bound
    rw [made] at bound
    exact number kind i (Nat.lt_of_add_lt_add_left bound)
  obtain ⟨limit, performed⟩ := reach'.run?
  refine ⟨later, limit, performed, same, funext fun kind => ?_, beside⟩
  have total : later.count kind + before.count kind = world.count kind + after.count kind := counts kind
  rw [made] at total
  simp only [Pi.add_apply] at total ⊢
  omega

/-- Each of the two groups gets from its programs what it gets from them alone, but for the numbers. -/
theorem Placed.performs [MulAction Renaming σ] {π : Renaming} {one other : Share σ}
    {ours theirs all : List (Performance σ)} {our their here : Kind → Nat}
    (placed : Placed π our their here ours theirs all) (apart : one.Apart other)
    {before before' after after' world : World σ} (left : PerformsWithin one other before ours after)
    (right : PerformsWithin other one before' theirs after') (mirrors : before.Mirrors π one world)
    (mirrors' : before'.Mirrors π other world) (ourCount : before.count = our)
    (theirCount : before'.count = their) (count : world.count = here) :
    ∃ later, Performs world (all.map (·.program.rename π)) (all.map (π • ·.outcome)) later ∧
      after.Mirrors π one later ∧ after'.Mirrors π other later ∧
      world.Agrees ((one.neither other).image π) later := by
  induction placed generalizing before before' world with
  | nil =>
    cases left
    cases right
    exact ⟨world, .nil, mirrors, mirrors', .refl _ world⟩
  | left number _ ih =>
    obtain _ | ⟨result, within, made, rest⟩ := left
    subst ourCount count
    obtain ⟨middle, limit, performed, same, total, beside⟩ :=
      Performance.mirror result within made mirrors number
    obtain ⟨later, performs, end₁, end₂, neither⟩ := ih rest right same
      (mirrors'.agrees (beside.narrow (apart.contains.image π))) made theirCount total
    have outside := beside.narrow ((one.contains_left other).image π)
    exact ⟨later, .cons performed performs, end₁, end₂, outside.trans neither⟩
  | right number _ ih =>
    obtain _ | ⟨result, within, made, rest⟩ := right
    subst theirCount count
    obtain ⟨middle, limit, performed, same, total, beside⟩ :=
      Performance.mirror result within made mirrors' number
    obtain ⟨later, performs, end₁, end₂, neither⟩ := ih left rest
      (mirrors.agrees (beside.narrow (apart.symm.contains.image π))) same ourCount made total
    have outside := beside.narrow ((one.contains_right other).image π)
    exact ⟨later, .cons performed performs, end₁, end₂, outside.trans neither⟩

/-- Programs for two groups of modules that are apart end in the same way in whatever order they are
mixed, and leave the same world but for the order of the journal and for the numbers of what they made. Only
these numbers are others: a program that speaks of nothing but what there was before is the same. -/
theorem groups_independent [MulAction Renaming σ] {one other : Share σ} {world middle last : World σ}
    {ours theirs all : List (Performance σ)} (apart : one.Apart other) (closed : world.Closed)
    (first : PerformsWithin one other world ours middle)
    (second : PerformsWithin other one middle theirs last)
    (interleaves : Interleaves ours theirs all) :
    ∃ (π : Renaming) (later : World σ),
      (∀ kind k, π kind k ≠ k → world.count kind ≤ k ∧ k < last.count kind) ∧
      Performs world (all.map (·.program.rename π)) (all.map (π • ·.outcome)) later ∧
      last.Mirrors π .whole later := by
  obtain ⟨π, moves, placed⟩ := interleaves.exists_placed world.count
  have count := first.count_eq
  have total := second.count_eq
  rw [← count] at placed
  have fixed : world.FixedBy π := fun kind k made =>
    by_contra fun moved => Nat.not_le_of_lt made (moves kind k moved).1
  have mirrors := closed π fixed
  have before : middle.Agrees other world := (first.beside.narrow apart.contains).symm
  obtain ⟨later, performs, ourEnd, theirEnd, neither⟩ := placed.performs apart first second
    (mirrors.narrow one.contains_whole) (before.mirrors (mirrors.narrow other.contains_whole)) rfl rfl rfl
  have ourPart : last.Mirrors π one later :=
    (second.beside.narrow apart.symm.contains).symm.mirrors ourEnd
  have rest : last.Mirrors π (one.neither other) later := by
    have early := first.beside.narrow (one.contains_left other)
    have late := second.beside.narrow (one.contains_right other)
    exact (early.trans late).symm.mirrors ((mirrors.narrow (one.neither other).contains_whole).agrees neither)
  refine ⟨π, later, fun kind k moved => ?_, performs, .of_parts apart ourPart theirEnd rest⟩
  have limits := moves kind k moved
  rwa [total, count]

/-- Makes a function and settles a name with it. -/
def exporting (name : String) (m : ModuleId) : Code Unit Value := do
  let f ← Code.function name fun _ => Code.unit
  Code.settle m "x" f

/-- Two modules, each with a body that makes a function and settles the name of the module with it. -/
def twoGroups : Program Unit :=
  Code.program do
    let a ← Code.create [.named "x"] .standard
    let b ← Code.create [.named "x"] .standard
    let _ ← Code.executeStatements a Code.unit [exporting "f"]
    Code.executeStatements b Code.unit [exporting "g"]

def grouped : World Unit := ((Machine.start twoGroups (.empty .standard ())).after 10).world

theorem exporting_rename (π : Renaming) (name : String) (m : ModuleId) :
    (exporting name ((π .module).symm m)).program.rename π = (exporting name m).program := by
  refine congrArg (Program.function name _) (funext fun value => ?_)
  have settles (n : ModuleId) (given : Value) (next : Except Fault Unit → Program Unit) (same : n = m)
      (equal : given = value) :
      Program.act (.settle n "x" given) next = .act (.settle m "x" value) next := by
    subst same equal
    rfl
  refine (settles _ _ _ ((π .module).apply_symm_apply m) (smul_inv_smul π value)).trans ?_
  refine congrArg (Program.act (.settle m "x" value)) (funext fun reply => ?_)
  cases reply <;> rfl

theorem bodyOf_rename (π : Renaming) (name : String) (position : Nat) (m : ModuleId) :
    (Code.bodyOf [exporting name] position ((π .module).symm m)).rename π =
      Code.bodyOf [exporting name] position m := by
  cases position with
  | zero => exact exporting_rename π name m
  | succ position => rfl

theorem execute_rename (π : Renaming) (name : String) (m : ModuleId) {next next' : Outcome → Program Unit}
    (goesOn : ∀ outcome, (next (π⁻¹ • outcome)).rename π = next' outcome) :
    (Code.executeStatements ((π .module).symm m) Code.unit [exporting name] next).rename π =
      Code.executeStatements m Code.unit [exporting name] next' := by
  simp only [Code.executeStatements, Code.execute, Program.rename, Equiv.apply_symm_apply, bodyOf_rename,
    goesOn]
  rfl

theorem twoGroups_rename (π : Renaming) : twoGroups.rename π = twoGroups := by
  refine congrArg (Program.act (.create _ _)) (funext fun a => ?_)
  refine congrArg (Program.act (.create _ _)) (funext fun b => ?_)
  refine execute_rename π "f" a fun outcome => ?_
  cases outcome with
  | returned value => exact execute_rename π "g" b fun outcome => congrArg _ (smul_inv_smul π outcome)
  | failed | panicked => rfl

theorem closed_grouped : grouped.Closed := by
  have empty : (World.empty .standard () : World Unit).Closed := World.closed_empty _ fun _ => rfl
  have ended : ((Machine.start twoGroups (.empty .standard ())).after 10).outcome? = some .unit := rfl
  obtain ⟨_, result⟩ := Machine.run?_of_after ended
  exact empty.run? (fun π _ => twoGroups_rename π) result

/-- One module alone with one function. -/
def lone (m : ModuleId) : Share Unit where
  modules n := n = m
  functions id := id = m
  bodies _ := False
  identifiers _ := False
  Own := Unit
  own := id

instance (m : ModuleId) : DecidablePred (lone m).modules := fun n =>
  inferInstanceAs (Decidable (n = m))

theorem apart_lone : (lone 0).Apart (lone 1) where
  modules _ mine yours := absurd (mine.symm.trans yours) (by decide)
  bodies _ mine _ := mine
  own _ _ same _ := same

/-- One function and nothing else. -/
def oneFunction : Kind → Nat
  | .function => 1
  | .module | .body => 0

def readFirst : Performance Unit where
  program := (Code.get 0 "x").program
  outcome := .returned (.function "f" 0)
  made := oneFunction

def finishSecond : Performance Unit where
  program := (Code.finish 1).program
  outcome := .unit
  made := oneFunction

def readSecond : Performance Unit where
  program := (Code.get 1 "x").program
  outcome := .returned (.function "g" 1)
  made _ := 0

/-- The world after the first module was read. -/
def firstRead : World Unit := ((Machine.start readFirst.program grouped).after 7).world

/-- The world after the second module was finished, too. -/
def secondEnded : World Unit := ((Machine.start finishSecond.program firstRead).after 9).world

theorem within_readFirst (i : Nat) (bound : i ≤ 7) :
    ((Machine.start readFirst.program grouped).after i).Within (lone 0) (lone 1) := by
  match i with
  | 0 | 1 | 3 | 4 | 5 | 6 | 7 => exact ⟨by decide, trivial⟩
  | 2 => exact ⟨by decide, rfl, Nat.zero_ne_one⟩
  | i + 8 => omega

theorem within_finishSecond (i : Nat) (bound : i ≤ 9) :
    ((Machine.start finishSecond.program firstRead).after i).Within (lone 1) (lone 0) := by
  match i with
  | 0 | 1 | 3 | 4 | 5 | 6 | 7 | 8 | 9 => exact ⟨by decide, trivial⟩
  | 2 => exact ⟨by decide, rfl, Nat.one_ne_zero⟩
  | i + 10 => omega

theorem within_readSecond (i : Nat) (bound : i ≤ 3) :
    ((Machine.start readSecond.program secondEnded).after i).Within (lone 1) (lone 0) := by
  match i with
  | 0 | 1 | 2 | 3 => exact ⟨by decide, trivial⟩
  | i + 4 => omega

theorem groups_independent_of_twoGroups :
    ∃ (π : Renaming) (later : World Unit),
      (∀ kind k, π kind k ≠ k → grouped.count kind ≤ k ∧ k < secondEnded.count kind) ∧
      Performs grouped
        [(Code.finish 1).program, (Code.get 0 "x").program, (Code.get 1 "x").program]
        [.unit, .returned (.function "f" (π .function 0)), .returned (.function "g" (π .function 1))]
        later ∧
      secondEnded.Mirrors π .whole later := by
  have first : PerformsWithin (lone 0) (lone 1) grouped [readFirst] firstRead :=
    .after within_readFirst rfl (by funext kind; cases kind <;> rfl) .nil
  have second : PerformsWithin (lone 1) (lone 0) firstRead [finishSecond, readSecond] secondEnded :=
    .after within_finishSecond rfl (by funext kind; cases kind <;> rfl)
      (.after within_readSecond rfl (by funext kind; cases kind <;> rfl) .nil)
  obtain ⟨π, later, moves, performs, same⟩ :=
    groups_independent apart_lone closed_grouped first second (.right (.left (.right .nil)))
  have old (m : ModuleId) (made : m < 2) : π .module m = m :=
    by_contra fun moved => Nat.not_le_of_lt made (moves .module m moved).1
  have finish : finishSecond.program.rename π = (Code.finish 1).program := by
    refine (Program.rename_demand_done π _).trans ?_
    rw [Demand.rename, old 1 (by decide)]
    rfl
  have reads (m : ModuleId) (made : m < 2) :
      (Code.get m "x" : Code Unit Value).program.rename π = (Code.get m "x").program := by
    refine (Program.rename_demand_done π _).trans ?_
    rw [Demand.rename, Target.rename, old m made]
    rfl
  refine ⟨π, later, moves, ?_, same⟩
  rwa [List.map_cons, List.map_cons, List.map_cons, List.map_nil, finish,
    show readFirst.program.rename π = _ from reads 0 (by decide),
    show readSecond.program.rename π = _ from reads 1 (by decide)] at performs

/-- The function of the first module is made after that of the second one here. -/
example : ((Machine.start (Code.get 0 "x").program
    ((Machine.start (Code.finish 1).program grouped).after 9).world).after 7).outcome? =
    some (.returned (.function "f" 1)) := rfl

end LiveBindings
