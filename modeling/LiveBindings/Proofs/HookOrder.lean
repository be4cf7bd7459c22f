import LiveBindings.Operation
import LiveBindings.Proofs.Tally
import Mathlib.Data.List.Perm.Basic

namespace LiveBindings

open Machine

variable {σ : Type} {allowed : Program σ → Prop}

/-- Runs each of whose transitions starts from a machine with a property. -/
inductive RunThrough (holds : Machine σ → Prop) : Machine σ → List (Turn σ) → Prop
  | start {program : Program σ} (template : Config) (host : σ) :
      RunThrough holds (.start program (.empty template host)) []
  | step {machine turns} : RunThrough holds machine turns → holds machine →
      RunThrough holds machine.step (turns ++ [machine.turn])
  | next {machine turns outcome} (program : Program σ) : RunThrough holds machine turns →
      machine.outcome? = some outcome → RunThrough holds (.start program machine.world) turns

theorem RunThrough.run {holds : Machine σ → Prop} {machine : Machine σ} {turns : List (Turn σ)}
    (through : RunThrough holds machine turns) : Run (fun _ => True) machine turns := by
  induction through with
  | start template host => exact .start template host trivial
  | step _ _ ih => exact ih.step
  | next program _ ended ih => exact ih.next ended trivial

theorem RunThrough.after {holds : Machine σ → Prop} {machine : Machine σ} {turns : List (Turn σ)}
    (through : RunThrough holds machine turns) {count : Nat}
    (all : ∀ i < count, holds (machine.after i)) :
    RunThrough holds (machine.after count) (turns ++ machine.turns count) := by
  induction count with
  | zero => rwa [Machine.turns, List.append_nil]
  | succ count ih =>
    rw [Machine.turns, ← List.append_assoc]
    exact (ih fun i less => all i (Nat.lt_succ_of_lt less)).step (all count (Nat.lt_succ_self count))

/-- Whether no panic is on its way. -/
def Machine.calm (machine : Machine σ) : Bool :=
  match machine.control with
  | .run (.done (.panicked _)) => false
  | _ => true

theorem Machine.not_loses_of_calm {machine : Machine σ} (calm : machine.calm = true)
    (m : ModuleId) : ¬ machine.Loses m := by
  rintro ⟨message, _, _, _, _, control, _⟩
  simp [Machine.calm, control, Control.answer] at calm

namespace Tally

variable {tally later : Tally σ} {machine : Machine σ} {m : ModuleId} {ticket : Nat}
  {code : ModuleId → Program σ}

/-- The hooks that have not begun yet. -/
def pool (tally : Tally σ) : List (Hook σ) := tally.waiting ++ tally.hooks.getD []

/-- Until the module has loaded all hooks are in the queue. From then on, those that it loaded with have
begun or wait on the stack, in order, and those that came later have all begun. -/
inductive Ordered (tally : Tally σ) : Prop
  | before {queue : List (Hook σ)} : tally.hooks = some queue →
      queue.map Hook.ticket = List.range tally.tickets → tally.loads = [] → tally.started = [] →
      tally.underway = [] → Ordered tally
  | after {count : Nat} : tally.hooks = none → tally.loads = [count] → count ≤ tally.tickets →
      tally.started.filter (· < count) ++ tally.waiting.map Hook.ticket = List.range count →
      tally.started.filter (count ≤ ·) = List.range' count (tally.tickets - count) → Ordered tally

/-- One more hook that came after the module had loaded has begun. -/
theorem Ordered.called (ordered : tally.Ordered) (gone : tally.hooks = none)
    (code : ModuleId → Program σ) : (tally.register.run [⟨tally.tickets, code⟩]).Ordered := by
  cases ordered with
  | before waits => cases gone.symm.trans waits
  | @after count gone loads enough early late =>
    refine .after gone loads (Nat.le_succ_of_le enough) ?_ ?_
    · have beyond : ¬ tally.tickets < count := Nat.not_lt.mpr enough
      simpa [run, register, waiting, beyond] using early
    · have grows : tally.tickets + 1 - count = (tally.tickets - count) + 1 := by omega
      have last : count + (tally.tickets - count) = tally.tickets := by omega
      simp [run, register, late, enough, grows, List.range'_concat, last]

/-- The hooks that are next in order were handed over to be run. -/
theorem ordered_run {hooks : List (Hook σ)} {count : Nat} (gone : tally.hooks = none)
    (loads : tally.loads = [count]) (enough : count ≤ tally.tickets)
    (early : tally.started.filter (· < count) ++ (hooks ++ tally.waiting).map Hook.ticket =
      List.range count)
    (late : tally.started.filter (count ≤ ·) = List.range' count (tally.tickets - count)) :
    (tally.run hooks).Ordered := by
  cases hooks with
  | nil =>
    rw [run_nil]
    exact .after gone loads enough early late
  | cons hook rest =>
    have among : hook.ticket ∈ List.range count := by
      rw [← early]
      simp
    have less : hook.ticket < count := List.mem_range.mp among
    refine .after gone loads enough ?_ ?_
    · simpa [run, waiting, less] using early
    · simpa [run, less] using late

theorem Ordered.stirs (ordered : tally.Ordered) (kept : ¬ machine.Loses m)
    (stirs : machine.Stirs m tally later) : later.Ordered := by
  cases stirs with
  | still => exact ordered
  | queued code waits =>
    cases ordered with
    | before queued tickets loads started nothing =>
      cases waits.symm.trans queued
      refine .before rfl ?_ loads started nothing
      rw [List.map_append, tickets]
      exact List.range_succ.symm
    | after gone => cases waits.symm.trans gone
  | called code gone _ => exact ordered.called gone code
  | @loaded queue waits _ _ =>
    cases ordered with
    | after gone => cases waits.symm.trans gone
    | before queued tickets loads started nothing =>
      cases waits.symm.trans queued
      have length : queue.length = tally.tickets := by
        simpa using congrArg List.length tickets
      have loaded : (tally.load queue).loads = [tally.tickets] := by
        simp [load, loads, length]
      refine ordered_run rfl loaded (Nat.le_refl _) ?_ ?_
      · simp [load, waiting, started, nothing, tickets]
      · simp [load, started]
  | @resumed rest others _ above _ =>
    cases ordered with
    | before _ _ _ _ nothing => cases above.symm.trans nothing
    | after gone loads enough early late =>
      rw [waiting, above] at early
      exact ordered_run gone loads enough early late
  | @unwound rest others _ above loses =>
    have none : rest = [] := Classical.byContradiction fun some => kept (loses some)
    rw [none] at above
    cases ordered with
    | before _ _ _ _ nothing => cases above.symm.trans nothing
    | after gone loads enough early late =>
      rw [waiting, above] at early
      exact .after gone loads enough early late

/-- Each hook that was registered has begun once, or is yet to begin. -/
theorem Ordered.perm (ordered : tally.Ordered) :
    (tally.started ++ tally.pool.map Hook.ticket).Perm (List.range tally.tickets) := by
  cases ordered with
  | before queued tickets _ started nothing =>
    simp only [pool, waiting, started, nothing, queued, Option.getD_some, List.flatten_nil,
      List.nil_append, tickets]
    exact .refl _
  | @after count gone _ enough early late =>
    have parts : (tally.started.filter (· < count) ++ tally.started.filter (count ≤ ·)).Perm
        tally.started := by
      have split := List.filter_append_perm (fun ticket => decide (ticket < count)) tally.started
      simpa only [← decide_not, Nat.not_lt] using split
    have whole : List.range count ++ List.range' count (tally.tickets - count) =
        List.range tally.tickets := by
      have total : count + (tally.tickets - count) = tally.tickets := by omega
      calc List.range count ++ List.range' count (tally.tickets - count)
          = List.range' 0 count ++ List.range' (0 + count) (tally.tickets - count) := by
            rw [List.range_eq_range', Nat.zero_add]
        _ = List.range' 0 (count + (tally.tickets - count)) := List.range'_append_1
        _ = List.range tally.tickets := by rw [total, List.range_eq_range']
    simp only [pool, gone, Option.getD_none, List.append_nil]
    rw [← whole, ← early, ← late, List.append_assoc]
    refine (parts.symm.append_right _).trans ?_
    rw [List.append_assoc]
    exact List.perm_append_comm.append_left _

theorem tickets_le_of_stirs (stirs : machine.Stirs m tally later) :
    tally.tickets ≤ later.tickets := by
  cases stirs with
  | queued | called => exact Nat.le_succ _
  | still | loaded | resumed | unwound => exact Nat.le_refl _

theorem mem_pool_of_stirs (stirs : machine.Stirs m tally later) {hook : Hook σ}
    (member : hook ∈ later.pool) :
    hook ∈ tally.pool ∨ hook.ticket = tally.tickets ∧ hook.ticket < later.tickets := by
  cases stirs with
  | still => exact .inl member
  | queued code waits =>
    rcases List.mem_append.mp member with waiting | queued
    · exact .inl (List.mem_append_left _ waiting)
    · rcases List.mem_append.mp queued with before | new
      · refine .inl (List.mem_append_right _ ?_)
        rwa [waits]
      · cases List.mem_singleton.mp new
        exact .inr ⟨rfl, Nat.lt_succ_self _⟩
  | called => exact .inl member
  | loaded waits _ _ =>
    rw [pool, waits]
    have waiting := (List.mem_append.mp member).resolve_right List.not_mem_nil
    exact .inl (List.mem_append.mpr (mem_waiting_run waiting).symm)
  | resumed _ above _ =>
    rw [pool, waiting, above]
    refine .inl ((List.mem_append.mp member).elim (fun waiting => ?_) (List.mem_append_right _))
    exact List.mem_append_left _ (List.mem_append.mpr (mem_waiting_run waiting))
  | unwound _ above _ =>
    rw [pool, waiting, above]
    refine .inl ((List.mem_append.mp member).elim (fun waiting => ?_) (List.mem_append_right _))
    exact List.mem_append_left _ (List.mem_append_right _ waiting)

/-- The hooks that have not begun were registered before. -/
def Given (tally : Tally σ) : Prop := ∀ hook ∈ tally.pool, hook.ticket < tally.tickets

theorem Given.stirs (given : tally.Given) (stirs : machine.Stirs m tally later) : later.Given := by
  intro hook member
  rcases mem_pool_of_stirs stirs member with old | ⟨_, new⟩
  · exact Nat.lt_of_lt_of_le (given hook old) (tickets_le_of_stirs stirs)
  · exact new

/-- A hook that was registered with some code under a number has that code as long as it waits. -/
structure Knows (tally : Tally σ) (ticket : Nat) (code : ModuleId → Program σ) : Prop where
  given : ticket < tally.tickets
  same : ∀ hook ∈ tally.pool, hook.ticket = ticket → hook.code = code

theorem Knows.stirs (knows : tally.Knows ticket code) (stirs : machine.Stirs m tally later) :
    later.Knows ticket code where
  given := Nat.lt_of_lt_of_le knows.given (tickets_le_of_stirs stirs)
  same hook member here := by
    rcases mem_pool_of_stirs stirs member with old | ⟨new, _⟩
    · exact knows.same hook old here
    · exact absurd (new.symm.trans here) (Nat.ne_of_gt knows.given)

theorem exists_of_begun {hooks : List (Hook σ)}
    (begins : tally.started ++ (hooks.take 1).map Hook.ticket = tally.started ++ [ticket]) :
    ∃ hook rest, hooks = hook :: rest ∧ hook.ticket = ticket := by
  cases hooks with
  | nil => simp at begins
  | cons hook rest =>
    have same := List.append_cancel_left begins
    simp only [List.take_succ_cons, List.take_zero, List.map_cons, List.map_nil, List.cons.injEq,
      and_true] at same
    exact ⟨hook, rest, rfl, same⟩

/-- The hook that begins under a number has the code that was registered under it. -/
theorem Knows.control (knows : tally.Knows ticket code) (stirs : machine.Stirs m tally later)
    (begins : later.started = tally.started ++ [ticket]) :
    machine.step.control = .run (code m) := by
  have quiet : tally.started ≠ tally.started ++ [ticket] := by simp
  cases stirs with
  | still | queued | unwound => exact absurd begins quiet
  | called other _ _ =>
    obtain ⟨hook, rest, same, here⟩ := exists_of_begun begins
    cases same
    exact absurd here.symm (Nat.ne_of_lt knows.given)
  | loaded waits _ runs =>
    obtain ⟨hook, rest, rfl, here⟩ := exists_of_begun begins
    have member : hook ∈ tally.pool := by simp [pool, waits]
    rw [← knows.same hook member here]
    exact runs hook rest rfl
  | resumed _ above runs =>
    obtain ⟨hook, rest, rfl, here⟩ := exists_of_begun begins
    have member : hook ∈ tally.pool := by simp [pool, waiting, above]
    rw [← knows.same hook member here]
    exact runs hook rest rfl

end Tally

namespace Machine

variable {machine first : Machine σ} {turns past : List (Turn σ)} {m : ModuleId}
  {hook : ModuleId → Program σ} {next : Outcome → Program σ}

theorem tally_start (template : Config) (host : σ) (program : Program σ) (m : ModuleId) :
    (start program (.empty template host)).tally m = ⟨⟨some [], 0, [], []⟩, []⟩ := by
  have hooks : ((World.empty template host).module m).hooks = some [] := by
    rw [World.module_of_not_mem (Nat.not_lt_zero m)]
    rfl
  have tickets : ((World.empty template host).module m).tickets = 0 := by
    rw [World.module_of_not_mem (Nat.not_lt_zero m)]
    rfl
  simp only [tally, World.tally, World.account, start, hooks, tickets]
  rfl

theorem tally_next {outcome : Outcome} (ended : machine.outcome? = some outcome)
    (program : Program σ) : (start program machine.world).tally m = machine.tally m := by
  rw [eq_of_outcome? ended]
  rfl

/-- Where a hook of a module that has loaded is registered, it runs before the call goes on. -/
theorem reaches_of_importer (registers : machine.control = .run (.importer m hook next))
    (loaded : (machine.world.module m).isLoaded = true) {outcome : Outcome} {later : World σ}
    (ends : (Control.run (hook m)).Ends machine.step.world outcome later) (calm : outcome.Calm) :
    machine.Reaches ⟨.run (next .unit), machine.stack, later⟩ := by
  obtain ⟨control, stack, world⟩ := machine
  cases registers
  have gone : (world.module m).hooks = none := Option.isNone_iff_eq_none.mp loaded
  have called : step ⟨.run (.importer m hook next), stack, world⟩ =
      runHooks m (.answer .unit) (.caller next :: stack) (world.update m (·.register none))
        [⟨(world.module m).tickets, hook⟩] := by
    simp only [step, stepProgram, importer, gone]
  rw [called] at ends
  refine .step ?_
  rw [called]
  refine (ends (.hooks m [] (.answer .unit) :: .caller next :: stack)).trans (.step (.step ?_))
  cases outcome with
  | panicked message => exact absurd rfl (calm message)
  | failed cause => exact .refl _
  | returned value => exact .refl _

/-- Where no hook of a module ends, as many of them come under way as begin. -/
theorem length_underway_step (tended : machine.Tended) (stays : ¬ machine.Leaves m) :
    (machine.step.tally m).underway.length + (machine.tally m).started.length =
      (machine.tally m).underway.length + (machine.step.tally m).started.length := by
  have stirs := stirs tended m
  generalize machine.step.tally m = later at stirs
  cases stirs with
  | still | queued => rfl
  | called => exact Tally.length_underway_run ..
  | loaded => exact Tally.length_underway_run ..
  | resumed leaves | unwound leaves => exact absurd leaves stays

/-- A hook that has ended is under way no more, and the next one that waits for it begins. -/
theorem length_underway_of_leaves (tended : machine.Tended) (leaves : machine.Leaves m) :
    (machine.step.tally m).underway.length + 1 + (machine.tally m).started.length =
      (machine.tally m).underway.length + (machine.step.tally m).started.length := by
  obtain ⟨control, stack, world⟩ := machine
  obtain ⟨outcome, rest, after, below, rfl, rfl⟩ := leaves
  have made : m ∈ world := World.mem_of_isLoaded (tended m rest after List.mem_cons_self)
  have above : (underway m (.hooks m rest after :: below)).length = (underway m below).length + 1 := by
    rw [underway_hooks, List.length_cons]
  have before : (tally ⟨.answer outcome, .hooks m rest after :: below, world⟩ m).underway =
      underway m (.hooks m rest after :: below) := rfl
  have runs := Tally.length_underway_run (world.tally m below) rest
  rw [← tally_runHooks after fun _ => made] at runs
  rw [before, above]
  cases outcome with
  | panicked message => rfl
  | failed cause | returned value =>
    rw [Nat.add_right_comm, Nat.add_right_comm _ 1]
    exact congrArg (· + 1) runs

/-- A hook of a module that has loaded begins where it is registered. -/
theorem begins_of_importer (made : m ∈ machine.world)
    (registers : machine.control = .run (.importer m hook next))
    (loaded : (machine.world.module m).isLoaded = true) :
    machine.step.control = .run (hook m) ∧ (machine.step.tally m).started =
      (machine.tally m).started ++ [(machine.world.module m).tickets] := by
  obtain ⟨control, stack, world⟩ := machine
  cases registers
  have gone : (world.module m).hooks = none := Option.isNone_iff_eq_none.mp loaded
  have steps : step ⟨.run (.importer m hook next), stack, world⟩ =
      importer m hook next stack world := rfl
  rcases tally_importer made hook next with ⟨queue, waits, _⟩ | ⟨_, runs, tells⟩
  · cases waits.symm.trans gone
  · rw [steps, tells]
    exact ⟨runs, rfl⟩

end Machine

section

variable {machine first : Machine σ} {turns past : List (Turn σ)} {m : ModuleId}
  {hook : ModuleId → Program σ} {next : Outcome → Program σ}

theorem RunThrough.ordered
    (through : RunThrough (fun machine : Machine σ => ¬ machine.Loses m) machine turns) :
    (machine.tally m).Ordered := by
  induction through with
  | start template host =>
    rw [Machine.tally_start]
    exact .before rfl rfl rfl rfl rfl
  | step through kept ih => exact ih.stirs kept (Machine.stirs through.run.tended m)
  | next program _ ended ih => rwa [Machine.tally_next ended]

theorem RunThrough.once_loaded
    (through : RunThrough (fun machine : Machine σ => ¬ machine.Loses m) machine turns)
    (loaded : (machine.world.module m).isLoaded = true) :
    ∃ count, (machine.tally m).loads = [count] ∧ count ≤ (machine.world.module m).tickets ∧
      (machine.tally m).started.filter (· < count) ++ (machine.tally m).waiting.map Hook.ticket =
        List.range count ∧
      (machine.tally m).started.filter (count ≤ ·) =
        List.range' count ((machine.world.module m).tickets - count) := by
  have gone : (machine.tally m).hooks = none := Option.isNone_iff_eq_none.mp loaded
  cases through.ordered with
  | before waits => cases gone.symm.trans waits
  | after _ loads enough early late => exact ⟨_, loads, enough, early, late⟩

theorem Run.given (run : Run allowed machine turns) (m : ModuleId) : (machine.tally m).Given := by
  induction run with
  | start template host =>
    rw [Machine.tally_start]
    exact fun _ => nofun
  | step run ih => exact ih.stirs (Machine.stirs run.tended m)
  | next _ ended _ ih => rwa [Machine.tally_next ended]

theorem Run.knows_step (run : Run allowed first past) (made : m ∈ first.world)
    (registers : first.control = .run (.importer m hook next)) :
    (first.step.tally m).Knows (first.world.module m).tickets hook := by
  have given := run.given m
  obtain ⟨control, stack, world⟩ := first
  cases registers
  have old (other : Hook σ) (member : other ∈ (world.tally m stack).pool)
      (here : other.ticket = (world.module m).tickets) : other.code = hook :=
    absurd here (Nat.ne_of_lt (given other member))
  have steps : Machine.step ⟨.run (.importer m hook next), stack, world⟩ =
      importer m hook next stack world := rfl
  rcases tally_importer made hook next with ⟨queue, waits, tells⟩ | ⟨_, _, tells⟩
  · rw [steps, tells]
    refine ⟨Nat.lt_succ_self _, fun other member here => ?_⟩
    simp only [Tally.pool, Tally.enqueue, Option.getD_some, ← List.append_assoc] at member
    rcases List.mem_append.mp member with before | new
    · refine old other ?_ here
      rw [Tally.pool, show (world.tally m stack).hooks = some queue from waits]
      exact before
    · cases List.mem_singleton.mp new
      rfl
  · rw [steps, tells]
    exact ⟨Nat.lt_succ_self _, old⟩

/-- After a hook was registered, it is known by its number. -/
theorem Run.knows (run : Run allowed first past) (made : m ∈ first.world)
    (registers : first.control = .run (.importer m hook next)) (precedes : first.Precedes machine) :
    machine = first ∨ (machine.tally m).Knows (first.world.module m).tickets hook := by
  induction precedes with
  | refl => exact .inl rfl
  | @step last precedes ih =>
    rcases ih with same | knows
    · rw [same]
      exact .inr (run.knows_step made registers)
    · obtain ⟨_, between⟩ := precedes.run run.weaken
      exact .inr (knows.stirs (Machine.stirs between.tended m))
  | @next last outcome program precedes ended ih =>
    rcases ih with same | knows
    · rw [same, Machine.outcome?, registers] at ended
      cases ended
    · rw [Machine.tally_next ended]
      exact .inr knows

/-- The hook that begins under a number is the one that was registered under it. -/
theorem Run.code_of_begun (run : Run allowed first past) (made : m ∈ first.world)
    (registers : first.control = .run (.importer m hook next)) (precedes : first.Precedes machine)
    (begins : (machine.step.tally m).started =
      (machine.tally m).started ++ [(first.world.module m).tickets]) :
    machine.step.control = .run (hook m) := by
  rcases run.knows made registers precedes with rfl | knows
  · obtain ⟨control, stack, world⟩ := machine
    cases registers
    rcases tally_importer made hook next with ⟨queue, _, tells⟩ | ⟨_, runs, _⟩
    · have steps : Machine.tally (Machine.step ⟨.run (.importer m hook next), stack, world⟩) m = _ :=
        tells
      rw [steps] at begins
      simp [Machine.tally, Tally.enqueue] at begins
    · exact runs
  · obtain ⟨_, between⟩ := precedes.run run.weaken
    exact knows.control (Machine.stirs between.tended m) begins

theorem underway_eq_nil {stack : List (Frame σ)}
    (none : ∀ rest after, .hooks m rest after ∉ stack) : underway m stack = [] := by
  refine List.filterMap_eq_nil_iff.mpr fun frame member => ?_
  cases frame with
  | hooks n rest after =>
    refine if_neg ?_
    rintro rfl
    exact none rest after member
  | caller | stepping | building => rfl

end

/-- How the hooks of a module have run where a run has come to. -/
structure Machine.HooksInOrder (m : ModuleId) (machine : Machine σ) : Prop where
  /-- No hook runs before the module has loaded: all wait in the queue, as they were registered. -/
  before : (machine.world.module m).isLoaded = false →
    (machine.tally m).started = [] ∧ (∀ rest after, .hooks m rest after ∉ machine.stack) ∧
      ∃ queue, (machine.world.module m).hooks = some queue ∧
        queue.map Hook.ticket = List.range (machine.world.module m).tickets
  /-- The module loaded once. The hooks that it loaded with have begun in the order in which they were
  registered, and the rest of them wait; each one that came later has begun as well, in order. -/
  after : (machine.world.module m).isLoaded = true →
    ∃ count, (machine.tally m).loads = [count] ∧ count ≤ (machine.world.module m).tickets ∧
      (machine.tally m).started.filter (· < count) ++ (machine.tally m).waiting.map Hook.ticket =
        List.range count ∧
      (machine.tally m).started.filter (count ≤ ·) =
        List.range' count ((machine.world.module m).tickets - count)
  /-- Each hook that was registered has begun once, or is yet to begin. -/
  once : ((machine.tally m).started ++ (machine.tally m).pool.map Hook.ticket).Perm
    (List.range (machine.world.module m).tickets)
  /-- As many hooks come under way as begin. -/
  entered : ¬ machine.Leaves m →
    (machine.step.tally m).underway.length + (machine.tally m).started.length =
      (machine.tally m).underway.length + (machine.step.tally m).started.length
  /-- A hook that has ended is under way no more, so it runs once for each time that it begins. -/
  left : machine.Leaves m →
    (machine.step.tally m).underway.length + 1 + (machine.tally m).started.length =
      (machine.tally m).underway.length + (machine.step.tally m).started.length
  /-- While a hook runs, the module has loaded. -/
  seen : ∀ rest after, .hooks m rest after ∈ machine.stack →
    (machine.world.module m).isLoaded = true
  /-- Where the stack is as it was at some time before the module loaded, the operation that made it
  load is over. All hooks that it loaded with have run by then, and none is under way. -/
  returned : ∀ first past, Run (fun _ => True) first past →
    (first.world.module m).isLoaded = false → machine.stack = first.stack →
      (machine.world.module m).isLoaded = true →
        (∀ rest after, .hooks m rest after ∉ machine.stack) ∧
          ∃ count, (machine.tally m).loads = [count] ∧
            (machine.tally m).started.filter (· < count) = List.range count
  /-- A hook that is registered of a module that has loaded begins at once, and the call goes on when it
  has ended. -/
  called : ∀ hook next, machine.control = .run (.importer m hook next) →
    (machine.world.module m).isLoaded = true → machine.step.control = .run (hook m) ∧
      (machine.step.tally m).started =
        (machine.tally m).started ++ [(machine.world.module m).tickets] ∧
      ∀ outcome later, (Control.run (hook m)).Ends machine.step.world outcome later →
        outcome.Calm → machine.Reaches ⟨.run (next .unit), machine.stack, later⟩
  /-- The hook that begins under a number is the one that was registered as that. -/
  code : ∀ first past hook next, Run (fun _ => True) first past → m ∈ first.world →
    first.control = .run (.importer m hook next) → first.Precedes machine →
      (machine.step.tally m).started =
          (machine.tally m).started ++ [(first.world.module m).tickets] →
        machine.step.control = .run (hook m)

/-- In every run in which no panic goes through a hook of a module while others wait for it, whatever
the hooks do: the hooks of the module run in order, each of them once. -/
theorem hooks_run_once {machine : Machine σ} {turns : List (Turn σ)} {m : ModuleId}
    (through : RunThrough (fun machine : Machine σ => ¬ machine.Loses m) machine turns) :
    machine.HooksInOrder m := by
  have ordered := through.ordered
  have run := through.run
  have loaded_of {first : Machine σ} {past : List (Turn σ)} (run : Run (fun _ => True) first past)
      (unloaded : (first.world.module m).isLoaded = false) (rest : List (Hook σ)) (after : After) :
      .hooks m rest after ∉ first.stack := fun member => by
    cases unloaded.symm.trans (run.tended m rest after member)
  refine ⟨fun unloaded => ?_, through.once_loaded, ordered.perm, Machine.length_underway_step run.tended,
    Machine.length_underway_of_leaves run.tended, run.tended m, ?_, ?_, ?_⟩
  · cases ordered with
    | before waits tickets _ started _ => exact ⟨started, loaded_of run unloaded, _, waits, tickets⟩
    | after gone =>
      have loaded : (machine.world.module m).isLoaded = true := Option.isNone_iff_eq_none.mpr gone
      cases unloaded.symm.trans loaded
  · intro first past before unloaded same loaded
    have none (rest : List (Hook σ)) (after : After) : .hooks m rest after ∉ machine.stack := by
      rw [same]
      exact loaded_of before unloaded rest after
    obtain ⟨count, loads, _, early, _⟩ := through.once_loaded loaded
    have empty : (machine.tally m).underway = [] := underway_eq_nil none
    rw [Tally.waiting, empty, List.flatten_nil, List.map_nil, List.append_nil] at early
    exact ⟨none, count, loads, early⟩
  · intro hook next registers loaded
    have made := World.mem_of_isLoaded loaded
    have goesOn (outcome : Outcome) (later : World σ)
        (ends : (Control.run (hook m)).Ends machine.step.world outcome later) (calm : outcome.Calm) :
        machine.Reaches ⟨.run (next .unit), machine.stack, later⟩ :=
      Machine.reaches_of_importer registers loaded ends calm
    obtain ⟨runs, begins⟩ := Machine.begins_of_importer made registers loaded
    exact ⟨runs, begins, goesOn⟩
  · exact fun first past hook next before made registers precedes =>
      before.code_of_begun made registers precedes

/-- The first hook of a module registers a third one, which runs inside it while the second one waits.
The second one commits, and then the module is asked to finish. -/
def registering : Program Unit :=
  Code.program do
    let m ← Code.create [.named "x"] .standard
    let _ ← Code.importer m fun loaded => do
      let _ ← Code.importer loaded fun _ => Code.note "third" []
      Code.note "first" []
    let _ ← Code.importer m fun loaded => Code.commit loaded [("x", .null)]
    let _ ← Code.executeStatements m Code.unit [fun n => Code.settle n "x" (.boolean true)]
    Code.finish m

/-- The machine that runs the program, after so many transitions. -/
def registeringAfter (count : Nat) : Machine Unit :=
  (Machine.start registering (.empty .standard ())).after count

theorem hooks_run_once_of_registering :
    let nested := registeringAfter 13
    let ended := registeringAfter 24
    nested.HooksInOrder 0 ∧ (nested.world.module 0).isLoaded = true ∧
      (nested.tally 0).waiting.map Hook.ticket = [1] ∧
      (nested.step.tally 0).started = (nested.tally 0).started ++ [2] ∧
      ended.HooksInOrder 0 ∧ ended.outcome?.isSome ∧ (ended.tally 0).loads = [2] ∧
      (ended.tally 0).started = [0, 2, 1] := by
  intro nested ended
  have calm : ∀ i < 24, (registeringAfter i).calm = true := by decide +kernel
  have through (count : Nat) (few : count ≤ 24) :
      RunThrough (fun machine : Machine Unit => ¬ machine.Loses 0) (registeringAfter count)
        ([] ++ (Machine.start registering (.empty .standard ())).turns count) :=
    (RunThrough.start .standard ()).after fun i less =>
      Machine.not_loses_of_calm (calm i (Nat.lt_of_lt_of_le less few)) 0
  have inside := hooks_run_once (through 13 (by decide))
  have loaded : (nested.world.module 0).isLoaded = true := rfl
  have begins := (inside.called _ _ rfl loaded).2.1
  exact ⟨inside, loaded, rfl, begins, hooks_run_once (through 24 (Nat.le_refl 24)), rfl, rfl, rfl⟩

end LiveBindings
