import LiveBindings.Proofs.Orderly

namespace LiveBindings

variable {σ : Type} {allowed : Program σ → Prop}

/-- One end of a resumption's passage through the machine. -/
inductive Passage (σ : Type)
  /-- The resumption begins to run its code. -/
  | began (code : Program σ)
  /-- The resumption that began last ends. -/
  | ended (outcome : Outcome)

namespace Turn

/-- What a turn tells about the resumptions of a module's body. -/
def passage? (m : ModuleId) (turn : Turn σ) : Option (Passage σ) :=
  if turn.about? = some m then
    match turn with
    | .began n body => some (.began (body.next n))
    | turn => turn.outcome?.map .ended
  else none

def body? (m : ModuleId) : Turn σ → Option (Body σ)
  | .attached n body => if n = m then some body else none
  | _ => none

theorem passage?_of_ne {turn : Turn σ} {m : ModuleId} (other : turn.about? ≠ some m) :
    turn.passage? m = none := if_neg other

theorem body?_of_ne {turn : Turn σ} {m : ModuleId} (other : turn.about? ≠ some m) :
    turn.body? m = none := by
  cases turn with
  | attached n body => exact if_neg fun same => other (congrArg some same)
  | _ => rfl

end Turn

/-- The passages of a module's resumptions, the earliest first. -/
def passages (m : ModuleId) (turns : List (Turn σ)) : List (Passage σ) :=
  turns.filterMap (·.passage? m)

def bodies (m : ModuleId) (turns : List (Turn σ)) : List (Body σ) := turns.filterMap (·.body? m)

@[simp]
theorem passages_concat (m : ModuleId) (turns : List (Turn σ)) (turn : Turn σ) :
    passages m (turns ++ [turn]) = passages m turns ++ (turn.passage? m).toList := by
  simp only [passages, List.filterMap_append, List.filterMap_cons, List.filterMap_nil]
  cases turn.passage? m <;> rfl

@[simp]
theorem bodies_concat (m : ModuleId) (turns : List (Turn σ)) (turn : Turn σ) :
    bodies m (turns ++ [turn]) = bodies m turns ++ (turn.body? m).toList := by
  simp only [bodies, List.filterMap_append, List.filterMap_cons, List.filterMap_nil]
  cases turn.body? m <;> rfl

namespace Body

/-- The body after so many resumptions have begun. -/
def after (body : Body σ) (count : Nat) : Body σ := { body with position := body.position + count }

theorem advanced_after (body : Body σ) (count : Nat) :
    (body.after count).advanced = body.after (count + 1) := rfl

theorem after_advanced (body : Body σ) (count : Nat) :
    body.advanced.after count = body.after (count + 1) := by
  simp only [after, advanced, Nat.add_assoc, Nat.add_comm 1]

theorem advanced_injective {body other : Body σ} (same : body.advanced = other.advanced) :
    body = other := by
  obtain ⟨position, code, ending⟩ := body
  obtain ⟨position', code', ending'⟩ := other
  simp only [advanced, Body.mk.injEq, Nat.add_right_cancel_iff] at same
  obtain ⟨rfl, rfl, rfl⟩ := same
  rfl

/-- The passages of a body's resumptions when each one ends with the given outcome before the next
one begins. -/
def course (m : ModuleId) : Body σ → List Outcome → List (Passage σ)
  | _, [] => []
  | body, outcome :: rest => .began (body.next m) :: .ended outcome :: course m body.advanced rest

theorem course_concat (m : ModuleId) (body : Body σ) (outcomes : List Outcome) (outcome : Outcome) :
    body.course m (outcomes ++ [outcome]) =
      body.course m outcomes ++ [.began ((body.after outcomes.length).next m)] ++ [.ended outcome] := by
  induction outcomes generalizing body with
  | nil => rfl
  | cons first rest ih =>
    rw [List.cons_append, course, ih, course, after_advanced]
    rfl

/-- What the outcome of the next resumption tells when the body can be resumed once more. -/
def GoesOn (body : Body σ) : Outcome → Prop
  | .returned value => body.verdict value = .yield
  | .failed _ => False
  | .panicked _ => True

/-- A resumption whose code has ended from the start ends as its code does. -/
def Obeys (m : ModuleId) (body : Body σ) (outcome : Outcome) : Prop :=
  ∀ ending, body.next m = .done ending → outcome = ending

/-- Outcomes of resumptions that follow one another, after all of which the body goes on. -/
def Lasts (m : ModuleId) (body : Body σ) (outcomes : List Outcome) : Prop :=
  ∀ i outcome, outcomes[i]? = some outcome →
    (body.after i).GoesOn outcome ∧ (body.after i).Obeys m outcome

theorem Lasts.concat {m : ModuleId} {body : Body σ} {outcomes : List Outcome} {outcome : Outcome}
    (lasts : body.Lasts m outcomes) (goesOn : (body.after outcomes.length).GoesOn outcome)
    (obeys : (body.after outcomes.length).Obeys m outcome) : body.Lasts m (outcomes ++ [outcome]) := by
  intro i other entry
  by_cases early : i < outcomes.length
  · rw [List.getElem?_append_left early] at entry
    exact lasts i other entry
  · rw [List.getElem?_append_right (Nat.not_lt.mp early)] at entry
    obtain ⟨last, same⟩ := List.getElem?_eq_some_iff.mp entry
    have atEnd : i = outcomes.length := by simp only [List.length_singleton] at last; omega
    subst atEnd
    simp only [Nat.sub_self, List.getElem_singleton] at same
    rw [← same]
    exact ⟨goesOn, obeys⟩

end Body

/-- Where a module's body is in its course, given the bodies and the passages so far. -/
inductive Chronicle (m : ModuleId) (life : Life σ) : List (Body σ) → List (Passage σ) → Prop
  /-- No body was attached. -/
  | unattached : life.slot = .empty → life.steps = 0 → Chronicle m life [] []
  /-- The body waits for its next resumption. -/
  | waiting {body outcomes} : body.Lasts m outcomes →
      life.slot = ⟨some (body.after outcomes.length), .suspended, none⟩ → life.held = false →
      life.steps = outcomes.length → Chronicle m life [body] (body.course m outcomes)
  /-- A resumption is under way. -/
  | stepping {body outcomes} : body.Lasts m outcomes →
      life.slot = ⟨some (body.after (outcomes.length + 1)), .suspended, none⟩ → life.held = true →
      life.steps = outcomes.length + 1 →
      Chronicle m life [body]
        (body.course m outcomes ++ [.began ((body.after outcomes.length).next m)])
  /-- The body came to its end. -/
  | completed {body outcomes value} : body.Lasts m outcomes →
      (body.after outcomes.length).verdict value = .complete →
      (body.after outcomes.length).Obeys m (.returned value) →
      life.slot = ⟨none, .completed, none⟩ → life.held = false → life.steps = outcomes.length + 1 →
      Chronicle m life [body] (body.course m (outcomes ++ [.returned value]))
  /-- A resumption failed. -/
  | failed {body outcomes cause} : body.Lasts m outcomes →
      (body.after outcomes.length).Obeys m (.failed cause) →
      life.slot = ⟨none, .failed, some cause⟩ → life.held = false →
      life.steps = outcomes.length + 1 →
      Chronicle m life [body] (body.course m (outcomes ++ [.failed cause]))

/-- A resumption whose code has ended from the start is at its end already. -/
def Machine.Prompt (machine : Machine σ) : Prop :=
  ∀ m ∈ machine.world, ∀ body ending, (machine.world.module m).held = true →
    (machine.world.module m).slot.body = some (Body.advanced body) → body.next m = .done ending →
    machine.control = .answer ending ∧
      ∃ frame rest, machine.stack = frame :: rest ∧ frame.owner? = some m

theorem Machine.Prompt.step {machine : Machine σ} (prompt : machine.Prompt)
    (orderly : Orderly machine.world (holding machine.stack)) : machine.step.Prompt := by
  intro m made body ending held slot code
  by_cases about : machine.turn.about? = some m
  · have old := orderly.mem_of_about machine.transition.enabled machine.transition.moves about
    have life := Machine.life_step_of_about old about
    rw [Module.held_of_life life] at held
    rw [Module.slot_of_life life] at slot
    have enabled := machine.transition.enabled
    cases turn : machine.turn with
    | making n =>
      rw [turn] at about enabled slot
      cases about
      have empty := ((orderly.shaped m old).of_pending enabled.2).1
      rw [show (Turn.change (.making m) (machine.world.module m)).slot = .empty from empty] at slot
      cases slot
    | began n first =>
      rw [turn] at about slot
      cases about
      cases Body.advanced_injective (Option.some.inj slot)
      obtain ⟨demand, _, control, stack⟩ := Machine.step_of_began turn
      exact ⟨control.trans (congrArg Control.run code), _, _, stack, rfl⟩
    | quiet =>
      rw [turn] at about
      cases about
    | attached | dropped | yielded | completed | failed | unwound =>
      rw [turn] at held
      cases held
  · by_cases old : m ∈ machine.world
    · have life := Machine.life_step_of_not_about old about
      rw [Module.held_of_life life] at held
      rw [Module.slot_of_life life] at slot
      obtain ⟨control, frame, rest, stack, owner⟩ := prompt m old body ending held slot code
      refine absurd ?_ about
      rw [show machine.turn = frame.turn ending by rw [Machine.turn, control, stack]; rfl]
      exact Frame.about?_turn owner ending
    · have fresh := congrArg Life.held (Machine.life_step_of_not_mem made old)
      cases held.symm.trans fresh

theorem Run.prompt {machine : Machine σ} {turns : List (Turn σ)} (run : Run allowed machine turns) :
    machine.Prompt := by
  induction run with
  | start template host => exact fun m made => absurd made (Nat.not_lt_zero m)
  | step run ih => exact ih.step run.orderly
  | @next machine turns outcome program run ended _ ih =>
    intro m made body ending held
    have nobody := (run.held_iff made).mp held
    rw [Machine.eq_of_outcome? ended] at nobody
    obtain ⟨frame, member, _⟩ := nobody
    cases member

namespace Chronicle

variable {m : ModuleId} {module : Module σ} {given : List (Body σ)} {past : List (Passage σ)}

theorem of_empty (chronicle : Chronicle m module.life given past) (slot : module.slot = .empty) :
    given = [] ∧ past = [] ∧ module.steps = 0 := by
  cases chronicle with
  | unattached _ steps => exact ⟨rfl, rfl, steps⟩
  | waiting _ other => cases slot.symm.trans other
  | stepping _ other => cases slot.symm.trans other
  | completed _ _ _ other => cases slot.symm.trans other
  | failed _ _ other => cases slot.symm.trans other

theorem of_waiting {body : Body σ} (chronicle : Chronicle m module.life given past)
    (slot : module.slot = ⟨some body, .suspended, none⟩) (free : module.held = false) :
    ∃ first outcomes, given = [first] ∧ past = first.course m outcomes ∧ first.Lasts m outcomes ∧
      body = first.after outcomes.length ∧ module.steps = outcomes.length := by
  cases chronicle with
  | unattached other _ => cases slot.symm.trans other
  | @waiting first outcomes lasts other _ steps =>
    cases slot.symm.trans other
    exact ⟨first, outcomes, rfl, rfl, lasts, rfl, steps⟩
  | stepping _ _ held _ => cases free.symm.trans held
  | completed _ _ _ other => cases slot.symm.trans other
  | failed _ _ other => cases slot.symm.trans other

theorem of_stepping {body : Body σ} (chronicle : Chronicle m module.life given past)
    (slot : module.slot = ⟨some body.advanced, .suspended, none⟩) (held : module.held = true) :
    ∃ first outcomes, given = [first] ∧
      past = first.course m outcomes ++ [.began ((first.after outcomes.length).next m)] ∧
      first.Lasts m outcomes ∧ body = first.after outcomes.length ∧
      module.steps = outcomes.length + 1 := by
  cases chronicle with
  | unattached other _ => cases slot.symm.trans other
  | waiting _ _ free _ => cases held.symm.trans free
  | @stepping first outcomes lasts other _ steps =>
    have bodies : some body.advanced = some (first.after outcomes.length).advanced :=
      congrArg Slot.body (slot.symm.trans other)
    have same := Body.advanced_injective (Option.some.inj bodies)
    exact ⟨first, outcomes, rfl, rfl, lasts, same, steps⟩
  | completed _ _ _ other => cases slot.symm.trans other
  | failed _ _ other => cases slot.symm.trans other

/-- A turn takes a module's chronicle one entry on. What ends a resumption has to obey its code. -/
theorem turn {turn : Turn σ} {world : World σ} {frames later : List (Frame σ)}
    (chronicle : Chronicle m (world.module m).life given past) (orderly : Orderly world frames)
    (enabled : turn.Enabled world) (moves : turn.Moves frames later) (about : turn.about? = some m)
    (obeys : ∀ outcome body, turn.outcome? = some outcome →
      (world.module m).slot.body = some (Body.advanced body) → body.Obeys m outcome) :
    Chronicle m (turn.change (world.module m)).life (given ++ (turn.body? m).toList)
      (past ++ (turn.passage? m).toList) := by
  have made := orderly.mem_of_about enabled moves about
  have held (owned : m ∈ owners frames) : (world.module m).held = true :=
    ((orderly.held m).mp owned).2
  cases moves with
  | quiet => cases about
  | making =>
    cases about
    have empty := ((orderly.shaped m made).of_pending enabled.2).1
    obtain ⟨rfl, rfl, steps⟩ := chronicle.of_empty empty
    simpa [Turn.body?, Turn.passage?, Turn.outcome?] using .unattached empty steps
  | @attached _ body =>
    cases about
    cases orderly.fits _ List.mem_cons_self rfl with
    | building empty =>
      obtain ⟨rfl, rfl, steps⟩ := chronicle.of_empty empty
      have lasts : body.Lasts m [] := fun i outcome entry => by cases entry
      have slot : ((Turn.attached m body).change (world.module m)).slot =
          ⟨some (body.after 0), .suspended, none⟩ := by
        simp [Turn.change, Module.attach, empty, Slot.empty, Body.after]
      simpa [Turn.body?, Turn.passage?, Turn.outcome?, Body.course] using
        waiting lasts slot rfl steps
  | dropped =>
    cases about
    cases orderly.fits _ List.mem_cons_self rfl with
    | building empty =>
      obtain ⟨rfl, rfl, steps⟩ := chronicle.of_empty empty
      simpa [Turn.body?, Turn.passage?, Turn.outcome?] using .unattached empty steps
  | @began _ body =>
    cases about
    have ready := (orderly.shaped m made).of_ready enabled.2
    obtain ⟨first, outcomes, rfl, rfl, lasts, rfl, steps⟩ := chronicle.of_waiting ready enabled.1
    have slot : ((Turn.began m (first.after outcomes.length)).change (world.module m)).slot =
        ⟨some (first.after (outcomes.length + 1)), .suspended, none⟩ := by
      simp [Turn.change, Module.resumed, ready, Body.advanced_after]
    simpa [Turn.body?, Turn.passage?, Turn.about?] using
      stepping lasts slot rfl (congrArg Nat.succ steps)
  | @yielded _ verdict demand value _ report =>
    cases about
    cases orderly.fits _ List.mem_cons_self rfl with
    | stepping before =>
      obtain ⟨first, outcomes, rfl, rfl, lasts, rfl, steps⟩ :=
        chronicle.of_stepping before (held (mem_owners.mpr ⟨_, List.mem_cons_self, rfl⟩))
      have more : first.Lasts m (outcomes ++ [.returned value]) := lasts.concat report
        (obeys _ _ rfl (congrArg Slot.body before))
      have slot : ((Turn.yielded m value).change (world.module m)).slot =
          ⟨some (first.after (outcomes.length + 1)), .suspended, none⟩ := by
        simp [Turn.change, Module.yield, before, Body.advanced_after]
      simpa [Turn.body?, Turn.passage?, Turn.about?, Turn.outcome?, Body.course_concat] using
        waiting more (by rwa [List.length_append]) rfl (by rwa [List.length_append])
  | @completed _ verdict demand value _ report =>
    cases about
    cases orderly.fits _ List.mem_cons_self rfl with
    | stepping before =>
      obtain ⟨first, outcomes, rfl, rfl, lasts, rfl, steps⟩ :=
        chronicle.of_stepping before (held (mem_owners.mpr ⟨_, List.mem_cons_self, rfl⟩))
      have slot : ((Turn.completed m value).change (world.module m)).slot =
          ⟨none, .completed, none⟩ := by
        simp [Turn.change, Module.complete, before]
      simpa [Turn.body?, Turn.passage?, Turn.about?, Turn.outcome?, Body.course_concat] using
        completed lasts report (obeys _ _ rfl (congrArg Slot.body before)) slot rfl steps
  | @failed _ verdict demand cause =>
    cases about
    cases orderly.fits _ List.mem_cons_self rfl with
    | stepping before =>
      obtain ⟨first, outcomes, rfl, rfl, lasts, rfl, steps⟩ :=
        chronicle.of_stepping before (held (mem_owners.mpr ⟨_, List.mem_cons_self, rfl⟩))
      have slot : ((Turn.failed m cause).change (world.module m)).slot =
          ⟨none, .failed, some cause⟩ := rfl
      simpa [Turn.body?, Turn.passage?, Turn.about?, Turn.outcome?, Body.course_concat] using
        failed lasts (obeys _ _ rfl (congrArg Slot.body before)) slot rfl steps
  | @unwound _ verdict demand message =>
    cases about
    cases orderly.fits _ List.mem_cons_self rfl with
    | stepping before =>
      obtain ⟨first, outcomes, rfl, rfl, lasts, rfl, steps⟩ :=
        chronicle.of_stepping before (held (mem_owners.mpr ⟨_, List.mem_cons_self, rfl⟩))
      have more : first.Lasts m (outcomes ++ [.panicked message]) := lasts.concat trivial
        (obeys _ _ rfl (congrArg Slot.body before))
      have slot : ((Turn.unwound m message).change (world.module m)).slot =
          ⟨some (first.after (outcomes.length + 1)), .suspended, none⟩ := before
      simpa [Turn.body?, Turn.passage?, Turn.about?, Turn.outcome?, Body.course_concat] using
        waiting more (by rwa [List.length_append]) rfl (by rwa [List.length_append])

end Chronicle

theorem Run.chronicle {machine : Machine σ} {turns : List (Turn σ)}
    (run : Run allowed machine turns) (m : ModuleId) :
    Chronicle m (machine.world.module m).life (bodies m turns) (passages m turns) := by
  induction run with
  | start template host =>
    rw [World.module_of_not_mem (Nat.not_lt_zero m)]
    exact .unattached rfl rfl
  | next _ _ _ ih => exact ih
  | @step machine turns run ih =>
    rw [bodies_concat, passages_concat]
    by_cases about : machine.turn.about? = some m
    · have made := run.orderly.mem_of_about machine.transition.enabled machine.transition.moves about
      rw [Machine.life_step_of_about made about]
      -- Only a resumption whose code has ended from the start has its outcome to account for.
      refine ih.turn run.orderly machine.transition.enabled machine.transition.moves about ?_
      intro outcome body ended slot ending code
      obtain ⟨control, frame, rest, stack, owner⟩ := Machine.control_of_outcome? ended
      have held : (machine.world.module m).held = true :=
        (run.held_iff made).mpr ⟨frame, by rw [stack]; exact List.mem_cons_self, owner.trans about⟩
      have prompt := (run.prompt m made body ending held slot code).1
      cases control.symm.trans prompt
      rfl
    · simp only [Turn.body?_of_ne about, Turn.passage?_of_ne about, Option.toList_none,
        List.append_nil]
      by_cases old : m ∈ machine.world
      · rwa [Machine.life_step_of_not_about old about]
      · rw [World.module_of_not_mem old] at ih
        obtain ⟨given, past, _⟩ := ih.of_empty rfl
        rw [given, past]
        by_cases made : m ∈ machine.step.world
        · rw [Machine.life_step_of_not_mem made old]
          exact .unattached rfl rfl
        · rw [World.module_of_not_mem made]
          exact .unattached rfl rfl

/-- A module is given one body at most. -/
theorem Chronicle.length_given {m : ModuleId} {life : Life σ} {given : List (Body σ)}
    {past : List (Passage σ)} (chronicle : Chronicle m life given past) : given.length ≤ 1 := by
  cases chronicle with
  | unattached => exact Nat.zero_le 1
  | waiting | stepping | completed | failed => exact Nat.le_refl 1

theorem mem_bodies {m : ModuleId} {body : Body σ} {turns : List (Turn σ)} :
    body ∈ bodies m turns ↔ .attached m body ∈ turns := by
  simp only [bodies, List.mem_filterMap]
  constructor
  · rintro ⟨turn, member, same⟩
    cases turn with
    | attached n other =>
      simp only [Turn.body?] at same
      split at same
      · next here =>
        cases same
        rwa [← here]
      · cases same
    | _ => cases same
  · intro member
    exact ⟨_, member, if_pos rfl⟩

theorem Run.bodies_of_attached {machine : Machine σ} {turns : List (Turn σ)}
    (run : Run allowed machine turns) {m : ModuleId} {body : Body σ}
    (attached : .attached m body ∈ turns) : m ∈ machine.world ∧ bodies m turns = [body] := by
  have member := mem_bodies.mpr attached
  have chronicle := run.chronicle m
  constructor
  · refine Classical.byContradiction fun missing => ?_
    rw [World.module_of_not_mem missing] at chronicle
    rw [(chronicle.of_empty rfl).1] at member
    cases member
  · generalize bodies m turns = given at chronicle member
    generalize passages m turns = past at chronicle
    cases chronicle <;> simp_all

end LiveBindings
