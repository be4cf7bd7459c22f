import LiveBindings.Proofs.Course
import LiveBindings.Proofs.Lifecycle

namespace LiveBindings

variable {σ : Type} {allowed : Program σ → Prop}

/-- The body that is a list of statements. -/
def Body.ofStatements (statements : List (ModuleId → Program σ)) : Body σ :=
  ⟨0, Program.statements statements, .afterStatements statements.length⟩

/-- The passages of statements that ended with the given outcomes, each statement once and in
order. -/
def ran (m : ModuleId) (statements : List (ModuleId → Program σ)) (outcomes : List Outcome) :
    List (Passage σ) :=
  (statements.zip outcomes).flatMap fun (statement, outcome) =>
    [.began (statement m), .ended outcome]

namespace Body

variable {m : ModuleId} {statements : List (ModuleId → Program σ)} {outcomes : List Outcome}

theorem next_ofStatements {i : Nat} {statement : ModuleId → Program σ}
    (entry : statements[i]? = some statement) :
    ((ofStatements statements).after i).next m = statement m := by
  simp [ofStatements, after, next, Program.statements, entry]

theorem next_ofStatements_length :
    ((ofStatements statements).after statements.length).next m = .done .unit := by
  simp [ofStatements, after, next, Program.statements, Outcome.unit]

theorem verdict_ofStatements (i : Nat) (value : Value) :
    ((ofStatements statements).after i).verdict value =
      if i < statements.length then .yield else .complete := by
  simp [ofStatements, after, verdict, Ending.step]

theorem verdict_ofStatements_length (value : Value) :
    ((ofStatements statements).after statements.length).verdict value = .complete :=
  (verdict_ofStatements _ value).trans (if_neg (Nat.lt_irrefl _))

/-- The resumption after the last statement does not let the body go on. -/
theorem Lasts.length_le (lasts : (ofStatements statements).Lasts m outcomes) :
    outcomes.length ≤ statements.length := by
  refine Nat.not_lt.mp fun beyond => ?_
  obtain ⟨goesOn, obeys⟩ := lasts statements.length _ (List.getElem?_eq_getElem beyond)
  rw [obeys _ next_ofStatements_length] at goesOn
  simp [Outcome.unit, GoesOn, verdict_ofStatements] at goesOn

theorem course_ofStatements (enough : outcomes.length ≤ statements.length) :
    (ofStatements statements).course m outcomes = ran m statements outcomes := by
  have drop (i : Nat) (within : i + outcomes.length ≤ statements.length) :
      ((ofStatements statements).after i).course m outcomes = ran m (statements.drop i) outcomes := by
    clear enough
    induction outcomes generalizing i with
    | nil => simp [course, ran]
    | cons outcome rest ih =>
      rw [List.length_cons] at within
      have bound : i < statements.length := by omega
      rw [course, next_ofStatements (List.getElem?_eq_getElem bound), advanced_after,
        ih (i + 1) (by omega), List.drop_eq_getElem_cons bound]
      rfl
  exact drop 0 (by omega)

end Body

/-- How far a list of statements has come, given the outcomes of those that have ended: between two
statements or inside the next one, or after the last one. Then the resumption that completes the body
has ended or is about to: it runs nothing, and its end is the next transition. -/
inductive Advanced (m : ModuleId) (statements : List (ModuleId → Program σ)) (machine : Machine σ)
    (outcomes : List Outcome) : List (Passage σ) → Prop
  | between : (machine.world.module m).steps = outcomes.length →
      (machine.world.module m).held = false →
      (machine.world.module m).slot.state ≠ .completed →
      Advanced m statements machine outcomes (ran m statements outcomes)
  | inside {statement} : statements[outcomes.length]? = some statement →
      (machine.world.module m).steps = outcomes.length + 1 →
      (machine.world.module m).held = true →
      Advanced m statements machine outcomes
        (ran m statements outcomes ++ [.began (statement m)])
  | ending {frame rest} : outcomes.length = statements.length →
      (machine.world.module m).steps = statements.length + 1 →
      machine.control = .answer .unit → machine.stack = frame :: rest → frame.owner? = some m →
      Advanced m statements machine outcomes (ran m statements outcomes ++ [.began (.done .unit)])
  | ended : outcomes.length = statements.length →
      (machine.world.module m).steps = statements.length + 1 →
      (machine.world.module m).slot.state = .completed →
      Advanced m statements machine outcomes
        (ran m statements outcomes ++ [.began (.done .unit), .ended .unit])

theorem Chronicle.advanced {m : ModuleId} {statements : List (ModuleId → Program σ)}
    {machine : Machine σ} {past : List (Passage σ)} (prompt : machine.Prompt)
    (made : m ∈ machine.world)
    (chronicle : Chronicle m (machine.world.module m).life [.ofStatements statements] past) :
    ∃ outcomes : List Outcome, outcomes.length ≤ statements.length ∧
      (∀ i cause, outcomes[i]? = some (.failed cause) →
        i + 1 = outcomes.length ∧ past = ran m statements outcomes) ∧
      Advanced m statements machine outcomes past := by
  cases chronicle with
  | @waiting body outcomes lasts slot free steps =>
    have enough := lasts.length_le
    rw [Body.course_ofStatements enough]
    refine ⟨outcomes, enough, fun i cause entry => (lasts i _ entry).1.elim, .between steps free ?_⟩
    rw [show (machine.world.module m).slot = _ from slot]
    exact nofun
  | @stepping body outcomes lasts slot held steps =>
    have enough := lasts.length_le
    rw [Body.course_ofStatements enough]
    refine ⟨outcomes, enough, fun i cause entry => (lasts i _ entry).1.elim, ?_⟩
    rcases Nat.lt_or_eq_of_le enough with before | atEnd
    · have entry := List.getElem?_eq_getElem before
      rw [Body.next_ofStatements entry]
      exact .inside entry steps held
    -- Nothing runs after the last statement, so the machine is at the end of the resumption already.
    · have next : ((Body.ofStatements statements).after statements.length).next m = .done .unit :=
        Body.next_ofStatements_length
      rw [← atEnd] at next
      rw [next]
      have body : (machine.world.module m).slot.body =
          some ((Body.ofStatements statements).after outcomes.length).advanced :=
        congrArg Slot.body slot
      obtain ⟨control, frame, rest, stack, owner⟩ :=
        prompt m made _ _ held body next
      exact .ending atEnd (by rwa [← atEnd]) control stack owner
  | @completed body outcomes value lasts report obeys slot free steps =>
    have enough := lasts.length_le
    have atEnd : outcomes.length = statements.length := by
      refine Nat.le_antisymm enough (Nat.not_lt.mp fun before => ?_)
      rw [Body.verdict_ofStatements, if_pos before] at report
      cases report
    rw [atEnd] at obeys
    refine ⟨outcomes, enough, fun i cause entry => (lasts i _ entry).1.elim, ?_⟩
    rw [Body.course_concat, atEnd, Body.next_ofStatements_length, Body.course_ofStatements enough,
      obeys _ Body.next_ofStatements_length, List.append_assoc]
    exact .ended atEnd (by rwa [← atEnd]) (congrArg Slot.state slot)
  | @failed body outcomes cause lasts obeys slot free steps =>
    have enough := lasts.length_le
    -- The resumption after the last statement returns, so it was a statement that failed.
    have before : outcomes.length < statements.length := by
      refine Nat.lt_of_le_of_ne enough fun atEnd => ?_
      rw [atEnd] at obeys
      cases obeys _ Body.next_ofStatements_length
    have longer : (outcomes ++ [Result.failed cause]).length ≤ statements.length := by
      rw [List.length_append]
      exact before
    rw [Body.course_ofStatements longer]
    refine ⟨outcomes ++ [.failed cause], longer, fun i other entry => ⟨?_, rfl⟩,
      .between ?_ free ?_⟩
    · have bound := (List.getElem?_eq_some_iff.mp entry).1
      have late : ¬ i < outcomes.length := fun early => by
        rw [List.getElem?_append_left early] at entry
        exact (lasts i _ entry).1
      simp only [List.length_append, List.length_singleton] at bound ⊢
      omega
    · rwa [List.length_append]
    · rw [show (machine.world.module m).slot = _ from slot]
      exact nofun

/-- In every run, whoever drives it and whatever fails or panics on the way: the resumptions of a
body that is a list of statements begin the statements in order, each once, and none before the one
before it has ended; after a statement that failed nothing begins; and the count of steps is that of
the statements which have begun, or one more once the body has come to its end. -/
theorem statements_in_order {machine : Machine σ} {turns : List (Turn σ)} {m : ModuleId}
    {statements : List (ModuleId → Program σ)} (run : Run allowed machine turns)
    (attached : .attached m (.ofStatements statements) ∈ turns) :
    ∃ outcomes : List Outcome, outcomes.length ≤ statements.length ∧
      (∀ i cause, outcomes[i]? = some (.failed cause) →
        i + 1 = outcomes.length ∧ passages m turns = ran m statements outcomes) ∧
      Advanced m statements machine outcomes (passages m turns) := by
  obtain ⟨made, only⟩ := run.bodies_of_attached attached
  have chronicle := run.chronicle m
  rw [only] at chronicle
  exact chronicle.advanced run.prompt made

theorem statements_in_order_of_caughtPanic :
    let statements := (readerStatements 1).map fun piece m => (piece m).program
    let machine := (Machine.start caughtPanic (.empty .standard ())).after 27
    let turns := (Machine.start caughtPanic (.empty .standard ())).turns 27
    .attached 0 (.ofStatements statements) ∈ turns ∧
      (machine.world.module 0).slot.state = .completed ∧
      ∃ outcomes : List Outcome, outcomes.length ≤ statements.length ∧
        (∀ i cause, outcomes[i]? = some (.failed cause) →
          i + 1 = outcomes.length ∧ passages 0 turns = ran 0 statements outcomes) ∧
        Advanced 0 statements machine outcomes (passages 0 turns) := by
  intro statements machine turns
  have run : Run (fun _ => True) machine turns := (Run.start .standard () trivial).after 27
  have attached : .attached 0 (.ofStatements statements) ∈ turns :=
    List.mem_of_getElem? (i := 7) rfl
  exact ⟨attached, rfl, statements_in_order run attached⟩

end LiveBindings
