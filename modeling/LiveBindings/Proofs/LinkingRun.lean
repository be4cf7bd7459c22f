import LiveBindings.Proofs.Linking
import LiveBindings.Proofs.Statements

namespace LiveBindings

variable {σ : Type}

/-- A body that is a list of linking statements. -/
def Body.Links (m : ModuleId) (body : Body σ) : Prop :=
  ∃ statements, body = .ofStatements statements ∧
    ∀ statement ∈ statements, Linking false (statement m)

/-- What waits, with the code that goes on linking. -/
inductive Frame.Links : Frame σ → Prop
  | caller {next} : (∀ outcome, Linking true (next outcome)) → Links (.caller next)
  | stepping {m verdict demand} : Links (.stepping m verdict demand)
  | building {m body} : Body.Links m body → Links (.building m body)

inductive Control.Links : Control σ → Prop
  | run {program} : Linking true program → Links (.run program)
  | demand {demand} : Links (.demand demand)

def World.Unhooked (world : World σ) : Prop :=
  ∀ m, (world.module m).hooks = none ∨ (world.module m).hooks = some []

/-- The machine works on code that links. -/
structure Machine.Links (machine : Machine σ) : Prop where
  control : machine.control.Links
  stack : ∀ frame ∈ machine.stack, frame.Links
  unhooked : machine.world.Unhooked

namespace World.Unhooked

variable {world before after : World σ}

theorem writes (unhooked : before.Unhooked) (writes : before.Writes after) : after.Unhooked := by
  intro m
  by_cases old : m ∈ before
  · have same := congrArg Module.hooks (writes.core m old)
    change (after.module m).hooks = (before.module m).hooks at same
    rw [same]
    exact unhooked m
  · by_cases made : m ∈ after
    · obtain ⟨names, config, same⟩ := writes.fresh m made old
      exact .inr (congrArg Module.hooks same)
    · rw [module_of_not_mem made]
      exact .inr rfl

theorem update (unhooked : world.Unhooked) (m : ModuleId) (change : Module σ → Module σ)
    (keeps : ∀ module, (change module).hooks = module.hooks ∨ (change module).hooks = none) :
    (world.update m change).Unhooked := by
  intro other
  by_cases same : other = m
  · subst other
    by_cases made : m ∈ world
    · rw [module_update_self change made]
      rcases keeps (world.module m) with kept | loaded
      · rw [kept]
        exact unhooked m
      · exact .inl loaded
    · rw [module_of_not_mem (by rwa [mem_iff, length_update])]
      exact .inr rfl
  · rw [module_update_of_ne world same]
    exact unhooked other

theorem record (unhooked : world.Unhooked) (m : ModuleId) (event : Event) :
    (world.record m event).Unhooked := unhooked.writes (writes_record world m event)

end World.Unhooked

theorem Control.Links.answer (outcome : Outcome) : (Control.answer outcome : Control σ).Links :=
  .run (.done outcome)

namespace Demand

theorem links_deliver (how : Reading) (target : Target) (world : World σ)
    (result : Except Fault Value) : (deliver how target world result).1.Links := by
  unfold deliver
  split
  · exact .answer _
  · split
    · exact .answer _
    · split <;> exact .answer _

theorem links_react (world : World σ) (demand : Demand) (progress : Progress) :
    (demand.react world progress).1.Links := by
  unfold react
  split
  · exact .demand
  · exact links_deliver ..
  · exact links_deliver ..
  · exact .answer _
  · exact .answer _
  · exact .demand
  all_goals exact .answer _

theorem links_proceed (world : World σ) (demand : Demand) : (demand.proceed world).1.Links := by
  unfold proceed
  split
  · split
    · split
      · exact .answer _
      · exact links_deliver ..
    · exact links_deliver ..
  · exact .answer _
  · exact .demand
  all_goals exact .answer _

end Demand

namespace Machine

variable {machine : Machine σ} {stack : List (Frame σ)} {world : World σ}

theorem links_react (unhooked : world.Unhooked) (links : ∀ frame ∈ stack, frame.Links)
    (demand : Demand) (progress : Progress) : (join stack (demand.react world progress)).Links :=
  ⟨demand.links_react world progress, links, unhooked.writes (demand.writes_react world progress)⟩

/-- Loading a module runs nothing when no hook waits. -/
theorem load_of_unhooked (unhooked : world.Unhooked) (m : ModuleId) (after : After)
    (stack : List (Frame σ)) :
    ∃ later : World σ, later.Unhooked ∧ load m after stack world = runHooks m after stack later [] := by
  unfold load
  rcases unhooked m with loaded | waiting
  · rw [loaded]
    exact ⟨world, unhooked, rfl⟩
  · rw [waiting]
    exact ⟨_, (unhooked.update m Module.load fun _ => .inr rfl).record m _, rfl⟩

theorem links_load (unhooked : world.Unhooked) (links : ∀ frame ∈ stack, frame.Links)
    (m : ModuleId) (after : After) : (load m after stack world).Links := by
  obtain ⟨later, still, same⟩ := load_of_unhooked unhooked m after stack
  rw [same]
  cases after with
  | goOn demand => exact links_react still links demand .stepped
  | answer outcome => exact ⟨.answer outcome, links, still⟩

theorem links_resumeFrame {frame : Frame σ} (unhooked : world.Unhooked)
    (links : ∀ frame ∈ stack, frame.Links) (waits : frame.Links) (outcome : Outcome) :
    (resumeFrame stack world frame outcome).Links := by
  have changed (m : ModuleId) (change : Module σ → Module σ)
      (keeps : ∀ module, (change module).hooks = module.hooks) : (world.update m change).Unhooked :=
    unhooked.update m change fun module => .inl (keeps module)
  cases waits with
  | caller next => exact ⟨.run (next outcome), links, unhooked⟩
  | @building m body _ =>
    have attached := changed m (·.attach body) fun _ => rfl
    cases outcome with
    | panicked message => exact ⟨.answer _, links, changed m Module.release fun _ => rfl⟩
    | failed cause => exact ⟨.demand, links, attached.record m _⟩
    | returned value => exact ⟨.demand, links, attached.record m _⟩
  | @stepping m verdict demand =>
    cases outcome with
    | panicked message => exact ⟨.answer _, links, changed m Module.release fun _ => rfl⟩
    | failed cause =>
      have failed := changed m (·.fail cause) fun _ => rfl
      exact links_react (failed.record m _) links ..
    | returned value =>
      simp only [resumeFrame]
      split
      · exact links_react (changed m Module.yield fun _ => rfl) links ..
      · have completed := changed m Module.complete fun _ => rfl
        exact links_load (completed.record m _) links ..

theorem links_commit (unhooked : world.Unhooked) (links : ∀ frame ∈ stack, frame.Links)
    (m : ModuleId) (entries : List (String × Value)) {next : Outcome → Program σ}
    (follows : ∀ outcome, Linking true (next outcome)) :
    (commit m entries next stack world).Links := by
  rw [commit_eq]
  split
  · exact ⟨.run (follows _), links, unhooked⟩
  · have settled := (unhooked.record m (.committed m (world.module m).state)).writes
      (World.writes_settleAll _ m entries)
    have waiting : ∀ frame ∈ .caller next :: stack, frame.Links := by
      intro frame member
      rcases List.mem_cons.mp member with rfl | inside
      · exact .caller follows
      · exact links frame inside
    dsimp only
    split
    · exact links_load settled waiting ..
    · exact links_load settled waiting ..
    · exact ⟨.run (follows _), links, settled⟩

/-- Asking a module to go on begins a resumption, or tells why there is none. -/
theorem advance_cases (demand : Demand) (m : ModuleId) (stack : List (Frame σ)) (world : World σ) :
    (∃ later progress, world.Writes later ∧ progress ≠ .stepped ∧
      advance demand m stack world = join stack (demand.react later progress)) ∨
    ∃ body, world.turn m = .began m body ∧ advance demand m stack world =
      ⟨.run (body.next m), .stepping m body.verdict demand :: stack,
        (world.update m (·.resumed body)).record m (.resuming m ((world.module m).steps + 1))⟩ := by
  unfold advance World.turn
  split
  · exact .inl ⟨_, .busy, world.writes_record m _, by rintro ⟨⟩, rfl⟩
  · cases (world.module m).slot.readiness with
    | failed cause => exact .inl ⟨world, .failed _, .refl world, by rintro ⟨⟩, rfl⟩
    | idle => exact .inl ⟨world, .idle, .refl world, by rintro ⟨⟩, rfl⟩
    | exhausted => exact .inl ⟨world, .exhausted, .refl world, by rintro ⟨⟩, rfl⟩
    | ready body => exact .inr ⟨body, rfl, rfl⟩

theorem links_advance {m : ModuleId} (unhooked : world.Unhooked)
    (links : ∀ frame ∈ stack, frame.Links)
    (code : ∀ body, world.turn m = .began m body → Linking true (body.next m)) (demand : Demand) :
    (advance demand m stack world).Links := by
  rcases advance_cases demand m stack world with
    ⟨later, progress, writes, _, same⟩ | ⟨body, began, same⟩
  · rw [same]
    exact links_react (unhooked.writes writes) links ..
  · rw [same]
    have resumed := unhooked.update m (·.resumed body) fun _ => .inl rfl
    refine ⟨.run (code body began), ?_, resumed.record m _⟩
    intro frame member
    rcases List.mem_cons.mp member with rfl | inside
    · exact .stepping
    · exact links frame inside

theorem links_execute {m : ModuleId} {factory : Program σ} {body : Body σ}
    {next : Outcome → Program σ} (unhooked : world.Unhooked)
    (links : ∀ frame ∈ stack, frame.Links) (made : Linking false factory) (linked : body.Links m)
    (follows : ∀ outcome, Linking true (next outcome)) :
    (execute m factory body next stack world).Links := by
  unfold execute
  split
  · refine ⟨.run made.executing, ?_, unhooked.update m Module.hold fun _ => .inl rfl⟩
    intro frame member
    rcases List.mem_cons.mp member with rfl | member
    · exact .building linked
    · rcases List.mem_cons.mp member with rfl | inside
      · exact .caller follows
      · exact links frame inside
  · exact ⟨.run (follows _), links, unhooked⟩

/-- A machine keeps working on code that links, if the resumptions that begin run such code. -/
theorem Links.step (links : machine.Links)
    (code : ∀ m body, machine.turn = .began m body → Linking true (body.next m)) :
    machine.step.Links := by
  obtain ⟨control, stack, world⟩ := machine
  obtain ⟨works, waits, unhooked⟩ := links
  cases works with
  | @demand demand =>
    simp only [step, stepDemand]
    cases awaited : demand.awaited? world with
    | none =>
      exact ⟨demand.links_proceed world, waits, unhooked.writes (demand.writes_proceed world)⟩
    | some m =>
      refine links_advance unhooked waits (fun body began => code m body ?_) demand
      simpa only [turn, awaited, Option.elim_some] using began
  | run linking =>
    cases linking with
    | done outcome =>
      cases stack with
      | nil => exact ⟨.answer outcome, waits, unhooked⟩
      | cons frame rest =>
        refine links_resumeFrame unhooked (fun other inside => ?_) (waits frame List.mem_cons_self) _
        exact waits other (List.mem_cons_of_mem _ inside)
    | host follows => exact ⟨.run (follows _), waits, unhooked.writes (.of_modules_eq rfl)⟩
    | @act _ action _ follows =>
      exact ⟨.run (follows _), waits, unhooked.writes (action.writes_perform world)⟩
    | demand follows =>
      refine ⟨.demand, fun frame member => ?_, unhooked⟩
      rcases List.mem_cons.mp member with rfl | inside
      · exact .caller follows
      · exact waits frame inside
    | commit follows => exact links_commit unhooked waits _ _ follows
    | execute made stated follows =>
      exact links_execute unhooked waits made ⟨_, rfl, stated⟩ follows

theorem building_of_attached {m : ModuleId} {body : Body σ}
    (attached : machine.turn = .attached m body) :
    ∃ outcome rest, machine.control = .answer outcome ∧ machine.stack = .building m body :: rest := by
  obtain ⟨control, stack, world⟩ := machine
  cases control with
  | demand demand =>
    cases awaited : demand.awaited? world with
    | none => simp [turn, awaited] at attached
    | some other =>
      simp only [turn, awaited, Option.elim_some, World.turn] at attached
      split at attached
      · cases attached
      · split at attached <;> cases attached
  | run program =>
    cases program with
    | done outcome =>
      cases stack with
      | nil => cases attached
      | cons frame rest =>
        refine ⟨outcome, rest, rfl, ?_⟩
        cases frame with
        | caller next => cases attached
        | hooks n rest after => cases attached
        | building n other => cases outcome <;> cases attached <;> rfl
        | stepping n verdict demand =>
          cases outcome with
          | returned value =>
            simp only [turn, Frame.turn] at attached
            split at attached <;> cases attached
          | failed cause => cases attached
          | panicked message => cases attached
    | execute =>
      simp only [turn] at attached
      split at attached <;> cases attached
    | _ => cases attached

end Machine

theorem Linking.next_ofStatements {m : ModuleId} {statements : List (ModuleId → Program σ)}
    (linking : ∀ statement ∈ statements, Linking false (statement m)) (position : Nat) :
    Linking false (((Body.ofStatements statements).after position).next m) := by
  simp only [Body.next, Body.after, Body.ofStatements, Program.statements]
  split
  · next statement entry => exact linking statement (List.mem_of_getElem? entry)
  · exact .done _

/-- A body that can be resumed in a run of linking code is a list of statements, and not all of its
resumptions have begun. -/
theorem Run.ready {allowed : Program σ → Prop} {machine : Machine σ} {turns : List (Turn σ)}
    {m : ModuleId} {body : Body σ} (run : Run allowed machine turns)
    (linked : ∀ m body, .attached m body ∈ turns → body.Links m)
    (began : machine.turn = .began m body) :
    ∃ statements position, body = (Body.ofStatements statements).after position ∧
      position ≤ statements.length ∧ ∀ statement ∈ statements, Linking false (statement m) := by
  have enabled := machine.transition.enabled
  rw [began] at enabled
  have slot := (run.orderly.shaped m (World.mem_of_free enabled.1)).of_ready enabled.2
  obtain ⟨first, outcomes, given, _, lasts, rfl, _⟩ := (run.chronicle m).of_waiting slot enabled.1
  have attached := mem_bodies.mp (given ▸ List.mem_singleton_self first)
  obtain ⟨statements, rfl, linking⟩ := linked m first attached
  exact ⟨statements, outcomes.length, rfl, lasts.length_le, linking⟩

/-- In runs of linking code the machine works on such code at all times, and every body that was
attached is a list of linking statements. -/
theorem Run.links {machine : Machine σ} {turns : List (Turn σ)}
    (run : Run (Linking true) machine turns) :
    machine.Links ∧ ∀ m body, .attached m body ∈ turns → body.Links m := by
  induction run with
  | start template host linking =>
    refine ⟨⟨.run linking, fun frame inside => ?_, fun m => ?_⟩, fun m body inside => ?_⟩
    · cases inside
    · rw [World.module_of_not_mem (Nat.not_lt_zero m)]
      exact .inr rfl
    · cases inside
  | @step machine turns run ih =>
    obtain ⟨links, linked⟩ := ih
    constructor
    -- The code of a resumption is that of a body attached before, hence the two halves together.
    · refine links.step fun m body began => ?_
      obtain ⟨statements, position, rfl, _, linking⟩ := run.ready linked began
      exact (Linking.next_ofStatements linking position).executing
    · intro m body inside
      rcases List.mem_append.mp inside with early | last
      · exact linked m body early
      · obtain ⟨_, rest, _, stack⟩ := Machine.building_of_attached (List.mem_singleton.mp last).symm
        have links := links.stack (.building m body) (by rw [stack]; exact List.mem_cons_self)
        cases links with
        | building links => exact links
  | next _ _ linking ih =>
    obtain ⟨links, linked⟩ := ih
    refine ⟨⟨.run linking, fun frame inside => ?_, links.unhooked⟩, linked⟩
    exact (List.not_mem_nil inside).elim

end LiveBindings
