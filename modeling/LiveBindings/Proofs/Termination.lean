import LiveBindings.Proofs.Budget
import LiveBindings.Proofs.Reading

namespace LiveBindings

variable {σ : Type} {executes : Bool}

/-- How many names a demand has still to take. -/
def Demand.weight : Demand → Nat
  | .forward _ _ pairs => pairs.length
  | _ => 0

/-- The control is an answer, or a demand with less to do. -/
inductive Control.Settles (demand : Demand) : Control σ → Prop
  | answer (outcome : Outcome) : Settles demand (.answer outcome)
  | demand {later : Demand} : later.weight < demand.weight → Settles demand (.demand later)

namespace Demand

theorem settles_deliver (demand : Demand) (how : Reading) (target : Target) (world : World σ)
    (result : Except Fault Value) : (deliver how target world result).1.Settles demand := by
  obtain ⟨outcome, answered⟩ := deliver_eq_answer how target world result
  rw [answered]
  exact .answer outcome

/-- A demand ends when the module that it waits for has failed. -/
theorem react_failed_eq_answer (world : World σ) (demand : Demand) (fault : Fault) :
    ∃ outcome, (demand.react world (.failed fault)).1 = .answer outcome := by
  cases demand with
  | read how target => exact deliver_eq_answer ..
  | forward m source pairs => exact ⟨_, rfl⟩
  | finish m => exact ⟨_, rfl⟩
  | wildcards m => exact ⟨_, rfl⟩

theorem settles_proceed (world : World σ) (demand : Demand) :
    (demand.proceed world).1.Settles demand := by
  unfold proceed
  split
  · split
    · split
      · exact .answer _
      · exact settles_deliver ..
    · exact settles_deliver ..
  · exact .answer _
  · exact .demand (Nat.lt_succ_self _)
  all_goals exact .answer _

theorem settles_react (world : World σ) (demand : Demand) {progress : Progress}
    (stays : progress ≠ .stepped) : (demand.react world progress).1.Settles demand := by
  unfold react
  split
  · exact absurd rfl stays
  · exact settles_deliver ..
  · exact settles_deliver ..
  · exact .answer _
  · exact .answer _
  · exact .demand (Nat.lt_succ_self _)
  all_goals exact .answer _

end Demand

namespace Machine

/-- The machine comes up in a run of linking code. -/
def Linked (machine : Machine σ) : Prop := ∃ turns, Run (Linking true) machine turns

/-- The machine comes to an answer above the given stack, in a world of the given kind. -/
def Returns (machine : Machine σ) (stack : List (Frame σ)) (good : World σ → Prop) : Prop :=
  ∃ outcome world, machine.Reaches ⟨.answer outcome, stack, world⟩ ∧ good world

variable {machine : Machine σ} {stack : List (Frame σ)} {world : World σ} {good : World σ → Prop}

theorem Linked.step (linked : machine.Linked) : machine.step.Linked :=
  let ⟨_, run⟩ := linked
  ⟨_, run.step⟩

theorem Linked.reaches {later : Machine σ} (linked : machine.Linked) (reach : machine.Reaches later) :
    later.Linked :=
  let ⟨_, run⟩ := linked
  let ⟨_, run⟩ := run.reaches reach
  ⟨_, run⟩

theorem Linked.left_step_le (linked : machine.Linked)
    (plain : ∀ m body, machine.turn ≠ .attached m body) :
    machine.step.world.left ≤ machine.world.left :=
  let ⟨_, run⟩ := linked
  run.left_step_le plain

theorem Returns.of_answer (outcome : Outcome) (ends : good world) :
    Returns ⟨.answer outcome, stack, world⟩ stack good := ⟨outcome, world, .refl _, ends⟩

theorem Returns.weaken {fine : World σ → Prop} (returns : machine.Returns stack good)
    (weaker : ∀ world, good world → fine world) : machine.Returns stack fine :=
  let ⟨outcome, world, reach, ends⟩ := returns
  ⟨outcome, world, reach, weaker world ends⟩

theorem Returns.of_step (returns : machine.step.Returns stack good) : machine.Returns stack good :=
  let ⟨outcome, world, reach, ends⟩ := returns
  ⟨outcome, world, .step reach, ends⟩

/-- A machine whose frame receives an answer goes on from there. -/
theorem Returns.of_call {frame : Frame σ} {waiting : List (Frame σ)} {inner : World σ → Prop}
    (linked : machine.Linked) (returns : machine.Returns (frame :: waiting) inner)
    (follows : ∀ outcome world, Linked ⟨.answer outcome, frame :: waiting, world⟩ → inner world →
      (resumeFrame waiting world frame outcome).Returns stack good) : machine.Returns stack good := by
  obtain ⟨outcome, world, reach, kept⟩ := returns
  obtain ⟨last, final, rest, ends⟩ := follows outcome world (linked.reaches reach) kept
  exact ⟨last, final, reach.trans (.step rest), ends⟩

theorem plain_of_quiet (quiet : machine.turn = .quiet) (m : ModuleId) (body : Body σ) :
    machine.turn ≠ .attached m body := by
  rw [quiet]
  intro attached
  cases attached

theorem Linked.unhooked (linked : machine.Linked) : machine.world.Unhooked :=
  let ⟨_, run⟩ := linked
  run.links.1.unhooked

/-- When no hook waits, a commit is done in one transition. -/
theorem commit_of_unhooked (unhooked : world.Unhooked) (m : ModuleId)
    (entries : List (String × Value)) (next : Outcome → Program σ) (stack : List (Frame σ)) :
    ∃ outcome later, commit m entries next stack world = ⟨.run (next outcome), stack, later⟩ ∨
      commit m entries next stack world = ⟨.answer outcome, .caller next :: stack, later⟩ := by
  rw [commit_eq]
  split
  · exact ⟨_, world, .inl rfl⟩
  · have settled := (unhooked.record m (.committed m (world.module m).state)).writes
      (World.writes_settleAll _ m entries)
    obtain ⟨later, _, loaded⟩ :=
      load_of_unhooked settled m (.answer .unit) (.caller next :: stack)
    dsimp only
    split
    · exact ⟨.unit, later, .inr loaded⟩
    · exact ⟨.unit, later, .inr loaded⟩
    · exact ⟨.unit, _, .inl rfl⟩

end Machine

open Machine

/-- Linking code comes to an answer if its demands do. -/
theorem Linking.returns {good : World σ → Prop} {program : Program σ}
    (demands : ∀ demand stack world, Linked ⟨.demand demand, stack, world⟩ → good world →
      Returns ⟨.demand demand, stack, world⟩ stack good)
    (keeps : ∀ machine : Machine σ, machine.Linked → good machine.world →
      (∀ m body, machine.turn ≠ .attached m body) → good machine.step.world)
    (linking : Linking executes program) : (executes = true → ∀ world, good world) →
      ∀ {stack world}, Linked ⟨.run program, stack, world⟩ → good world →
        Returns ⟨.run program, stack, world⟩ stack good := by
  induction linking with
  | done outcome => exact fun _ _ _ _ ends => .of_answer outcome ends
  | host _ ih =>
    intro attaches stack world linked before
    exact .of_step (ih _ attaches linked.step (keeps _ linked before (plain_of_quiet rfl)))
  | act _ ih =>
    intro attaches stack world linked before
    exact .of_step (ih _ attaches linked.step (keeps _ linked before (plain_of_quiet rfl)))
  | demand _ ih =>
    intro attaches stack world linked before
    have returns := demands _ _ _ linked.step (keeps _ linked before (plain_of_quiet rfl))
    exact .of_step (.of_call linked.step returns fun outcome world answered between =>
      ih outcome attaches answered.step between)
  | @commit _ m entries next _ ih =>
    intro attaches stack world linked before
    have after := keeps _ linked before (plain_of_quiet rfl)
    have stepped := linked.step
    refine .of_step ?_
    obtain ⟨outcome, later, same⟩ := commit_of_unhooked linked.unhooked m entries next stack
    change good (Machine.commit m entries next stack world).world at after
    change Linked (Machine.commit m entries next stack world) at stepped
    change Returns (Machine.commit m entries next stack world) stack good
    rcases same with done | loaded
    · rw [done] at after stepped ⊢
      exact ih outcome attaches stepped after
    · rw [loaded] at after stepped ⊢
      exact .of_step (ih outcome attaches stepped.step after)
  | @execute m factory statements next _ _ _ made _ ih =>
    intro attaches stack world linked _
    have always := attaches rfl
    have stepped := linked.step
    refine .of_step ?_
    simp only [Machine.step, stepProgram, Machine.execute] at stepped ⊢
    by_cases free : (world.module m).held = false ∧ (world.module m).slot.state = .pending
    · rw [if_pos free] at stepped ⊢
      refine .of_call stepped (made (fun _ => always) stepped (always _))
        fun outcome later answered _ => ?_
      have resumed := answered.step
      cases outcome with
      | panicked message => exact .of_step (ih _ attaches resumed.step (always _))
      | failed cause =>
        refine .of_call resumed (demands _ _ _ resumed (always _)) fun last world answered _ => ?_
        exact ih last attaches answered.step (always _)
      | returned value =>
        refine .of_call resumed (demands _ _ _ resumed (always _)) fun last world answered _ => ?_
        exact ih last attaches answered.step (always _)
    · rw [if_neg free] at stepped ⊢
      exact ih _ attaches stepped (always _)

/-- A demand that a transition settles comes to an answer, if those with less to do come to one. -/
theorem Machine.Returns.of_settles {stack : List (Frame σ)} {good : World σ → Prop} {demand : Demand}
    {result : Control σ × World σ}
    (lighter : ∀ later : Demand, later.weight < demand.weight → ∀ world,
      Linked ⟨.demand later, stack, world⟩ → good world →
        Returns ⟨.demand later, stack, world⟩ stack good)
    (settles : result.1.Settles demand) (linked : Linked (join stack result))
    (ends : good result.2) : Returns (join stack result) stack good := by
  obtain ⟨control, world⟩ := result
  cases settles with
  | answer outcome => exact .of_answer outcome ends
  | @demand later less => exact lighter later less world linked ends

/-- When a resumption ends, the demand that it served is answered or goes on. -/
theorem Machine.resumeFrame_stepping {world : World σ} (unhooked : world.Unhooked)
    (stack : List (Frame σ)) (m : ModuleId) (verdict : Value → Step) (demand : Demand)
    (outcome : Outcome) : ∃ later : World σ,
      resumeFrame stack world (.stepping m verdict demand) outcome = ⟨.demand demand, stack, later⟩ ∨
      ∃ result, resumeFrame stack world (.stepping m verdict demand) outcome =
        ⟨.answer result, stack, later⟩ := by
  cases outcome with
  | panicked message => exact ⟨_, .inr ⟨_, rfl⟩⟩
  | failed cause =>
    obtain ⟨result, answered⟩ := demand.react_failed_eq_answer
      ((world.update m (·.fail cause)).record m (.bodyFailed m cause))
      (.failed (world.label m) cause)
    exact ⟨_, .inr ⟨result, by simp only [resumeFrame, join, answered]; rfl⟩⟩
  | returned value =>
    simp only [resumeFrame]
    split
    · exact ⟨_, .inl rfl⟩
    · have completed := (unhooked.update m Module.complete fun _ => .inl rfl).record m
        (.completed m (world.module m).steps)
      obtain ⟨later, _, loaded⟩ := load_of_unhooked completed m (.goOn demand) stack
      exact ⟨later, .inl loaded⟩

namespace Machine.Linked

theorem left_step_le_of_demand {demand : Demand} {stack : List (Frame σ)} {world : World σ}
    (linked : Linked ⟨.demand demand, stack, world⟩) :
    (Machine.step ⟨.demand demand, stack, world⟩).world.left ≤ world.left := by
  refine linked.left_step_le fun m body attached => ?_
  obtain ⟨_, _, answered, _⟩ := building_of_attached attached
  cases answered

theorem left_step_le_of_stepping {m : ModuleId} {verdict : Value → Step} {demand : Demand}
    {outcome : Outcome} {stack : List (Frame σ)} {world : World σ}
    (linked : Linked ⟨.answer outcome, .stepping m verdict demand :: stack, world⟩) :
    (resumeFrame stack world (.stepping m verdict demand) outcome).world.left ≤ world.left := by
  refine linked.left_step_le fun n body attached => ?_
  obtain ⟨_, _, _, waits⟩ := building_of_attached attached
  cases waits

/-- A demand comes to an answer, and no resumptions are added to those that are left. -/
theorem returns_demand (bound : Nat) : ∀ demand stack (world : World σ),
    Linked ⟨.demand demand, stack, world⟩ → world.left ≤ bound →
      Returns ⟨.demand demand, stack, world⟩ stack (·.left ≤ bound) := by
  -- The resumptions that are left fall when a resumption begins; else the demand's weight does.
  induction bound using Nat.strong_induction_on with
  | _ bound fewer =>
    intro demand
    induction size : demand.weight using Nat.strong_induction_on generalizing demand with
    | _ weight lighter =>
      intro stack world linked within
      have lighter (later : Demand) (less : later.weight < demand.weight) (world : World σ) :=
        lighter later.weight (size ▸ less) later rfl stack world
      have stepped := linked.step
      have kept := Nat.le_trans linked.left_step_le_of_demand within
      refine .of_step ?_
      cases awaited : demand.awaited? world with
      | none =>
        simp only [Machine.step, stepDemand, awaited] at stepped kept ⊢
        exact .of_settles lighter (demand.settles_proceed world) stepped kept
      | some m =>
        have asked : Machine.step ⟨.demand demand, stack, world⟩ = advance demand m stack world := by
          simp only [Machine.step, stepDemand, awaited]
        rcases advance_cases demand m stack world with
          ⟨later, progress, _, stays, same⟩ | ⟨body, began, same⟩
        · rw [asked.trans same] at stepped kept ⊢
          exact .of_settles lighter (demand.settles_react _ stays) stepped kept
        · obtain ⟨turns, run⟩ := linked
          have began : Machine.turn ⟨.demand demand, stack, world⟩ = .began m body := by
            simp only [Machine.turn, awaited, Option.elim_some, began]
          have less := run.left_step_lt began
          obtain ⟨statements, position, rfl, _, linking⟩ := run.ready run.links.2 began
          rw [asked.trans same] at stepped less ⊢
          generalize World.record _ m _ = resumed at stepped less ⊢
          have code := Linking.next_ofStatements linking position
          have shorter := fewer resumed.left (Nat.lt_of_lt_of_le less within)
          have returns := code.returns shorter
            (fun _ linked before plain => Nat.le_trans (linked.left_step_le plain) before)
            (fun executes => Bool.noConfusion executes) stepped (Nat.le_refl _)
          -- The code of the resumption has ended; the demand asks again with fewer of them left.
          refine .of_call stepped returns fun outcome later answered before => ?_
          have next := answered.step
          have after := Nat.le_trans answered.left_step_le_of_stepping before
          have within := Nat.le_trans (Nat.le_of_lt less) within
          change Linked (resumeFrame ..) at next
          obtain ⟨last, again | ⟨result, ends⟩⟩ :=
            resumeFrame_stepping answered.unhooked stack m _ demand outcome
          · rw [again] at next after ⊢
            exact (shorter demand stack last next after).weaken fun _ fewer =>
              Nat.le_trans fewer within
          · rw [ends] at after ⊢
            exact .of_answer result (Nat.le_trans after within)

end Machine.Linked

theorem Run.ends {machine : Machine σ} {turns : List (Turn σ)}
    (run : Run (Linking true) machine turns) :
    ∃ outcome world, machine.Reaches ⟨.answer outcome, [], world⟩ := by
  have started {program : Program σ} {world : World σ} (linking : Linking true program)
      (linked : Linked (.start program world)) :
      ∃ outcome world', (Machine.start program world).Reaches ⟨.answer outcome, [], world'⟩ := by
    obtain ⟨outcome, last, reach, _⟩ : Returns (.start program world) [] fun _ => True := by
      refine linking.returns (fun demand stack world linked _ => ?_) (fun _ _ _ _ => trivial)
        (fun _ _ => trivial) linked trivial
      exact (linked.returns_demand world.left _ _ _ (Nat.le_refl _)).weaken fun _ _ => trivial
    exact ⟨outcome, last, reach⟩
  induction run with
  | start template host linking => exact started linking ⟨_, .start template host linking⟩
  | next run ended linking _ => exact started linking ⟨_, run.next ended linking⟩
  | step _ ih =>
    obtain ⟨outcome, world, reach⟩ := ih
    exact ⟨outcome, world, reach.step_to_end (outcome?_answer outcome world)⟩

/-- Whatever modules import from one another, cyclic or not: code that links them ends, from wherever
its run has come to. Over the whole run no more resumptions begin than there are statements in the
bodies of modules, and one more for each body; and the frames that hold modules, steps in progress
among them, hold distinct ones. -/
theorem linking_ends {machine : Machine σ} {turns : List (Turn σ)}
    (run : Run (Linking true) machine turns) :
    (∃ limit outcome world, machine.run? limit = some (outcome, world)) ∧
    (resumptions turns ≤ ∑ m ∈ Finset.range machine.world.modules.length,
      ((bodies m turns).map fun body => body.remaining + 1).sum) ∧
    (∀ m, (bodies m turns).length ≤ 1) ∧
    (owners machine.stack).Nodup := by
  refine ⟨?_, run.resumptions_le_sum, fun m => (run.chronicle m).length_given, ?_⟩
  · obtain ⟨outcome, world, reach⟩ := run.ends
    obtain ⟨limit, result⟩ := reach.run?
    exact ⟨limit, outcome, world, result⟩
  · rw [← owners_holding]
    exact run.orderly.distinct

/-- Two modules that take the values of their names from each other, one of which takes all names of
the other besides. -/
def cyclicImports : Program Unit :=
  Code.program do
    let first ← Code.create [.named "x"] .standard
    let second ← Code.create [.named "y", .wildcard] .standard
    let _ ← Code.executeStatements first Code.unit
      [fun m => do Code.settle m "x" (← Code.get second "y")]
    let _ ← Code.executeStatements second Code.unit
      [fun m => do Code.commit m [("y", ← Code.get first "x")], fun m => Code.merge m first]
    let _ ← (Code.resolve first "x").outcome
    Code.finish second

theorem linking_cyclicImports : Linking true cyclicImports := by
  refine ((Code.Links.act _).bind fun first => (Code.Links.act _).bind fun second => ?_).program
  refine (Code.Links.executeStatements (.ret _) fun statement member => ?_).bind fun _ =>
    (Code.Links.executeStatements (.ret _) fun statement member => ?_).bind fun _ =>
      (Code.Links.outcome (.demand _)).bind fun _ => .demand _
  · cases List.mem_singleton.mp member
    exact (Code.Links.demand _).bind fun value => .settle first "x" value
  · rcases List.mem_cons.mp member with rfl | member
    · exact (Code.Links.demand _).bind fun value => .commit second [("y", value)]
    · cases List.mem_singleton.mp member
      exact .merge second first

theorem linking_ends_of_cyclicImports :
    let machine := (Machine.start cyclicImports (.empty .standard ())).after 12
    let turns := (Machine.start cyclicImports (.empty .standard ())).turns 12
    owners machine.stack = [0, 1] ∧
      (∃ limit outcome world, machine.run? limit = some (outcome, world)) ∧
      (resumptions turns ≤ ∑ m ∈ Finset.range machine.world.modules.length,
        ((bodies m turns).map fun body => body.remaining + 1).sum) ∧
      (∀ m, (bodies m turns).length ≤ 1) ∧
      (owners machine.stack).Nodup := by
  intro machine turns
  have run : Run (Linking true) machine turns :=
    (Run.start .standard () linking_cyclicImports).after 12
  exact ⟨rfl, linking_ends run⟩

end LiveBindings
