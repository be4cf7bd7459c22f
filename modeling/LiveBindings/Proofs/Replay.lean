import LiveBindings.Proofs.Growth
import LiveBindings.Proofs.Loading

namespace LiveBindings

variable {σ : Type} {allowed : Program σ → Prop}

namespace Event

/-- What an event did to the names of a module. -/
def effect (m : ModuleId) (event : Event) (module : Module σ) : Module σ :=
  match event with
  | .settled n name value => if n = m then module.bind name value else module
  | .forwarded n _ localName _ value => if n = m then module.define localName value else module
  | .merged n _ entries _ _ => if n = m then (module.defineAll entries).countMerge else module
  | _ => module

/-- The value that an event gave to a name of a module. -/
def written? (m : ModuleId) (name : String) : Event → Option Value
  | .settled n other value => if n = m ∧ name = other then some value else none
  | .forwarded n _ localName _ value => if n = m ∧ name = localName then value else none
  | .merged n _ entries _ _ => if n = m then Table.findIn name entries.reverse else none
  | _ => none

/-- Whether an event brought a name into a module from another one. -/
def brings (m : ModuleId) (name : String) : Event → Bool
  | .forwarded n _ localName _ _ => n = m ∧ name = localName
  | .merged n _ entries _ _ => n = m ∧ (Table.findIn name entries.reverse).isSome
  | _ => false

end Event

theorem Table.findIn_append {α : Type} (key : String) (first second : List (String × α)) :
    findIn key (first ++ second) = (findIn key first).or (findIn key second) := by
  induction first with
  | nil => rfl
  | cons entry rest ih =>
    simp only [List.cons_append, findIn, ih]
    split <;> rfl

namespace Module

variable (module : Module σ)

theorem peek_bind (name other : String) (value : Value) :
    (module.bind other value).peek name = if name = other then some value else module.peek name :=
  Table.find?_insert module.bindings other name value

theorem peek_define (name other : String) (value : Option Value) :
    (module.define other value).peek name =
      (if name = other then value else none).or (module.peek name) := by
  cases value with
  | none => split <;> rfl
  | some value =>
    refine (peek_bind _ name other value).trans ?_
    split <;> rfl

theorem peek_defineAll (name : String) (entries : List (String × Value)) :
    (module.defineAll entries).peek name =
      (Table.findIn name entries.reverse).or (module.peek name) := by
  unfold defineAll
  induction entries generalizing module with
  | nil => rfl
  | cons entry rest ih =>
    rw [List.foldl_cons, ih, peek_define, List.reverse_cons, Table.findIn_append, Option.or_assoc]
    rfl

theorem declares_define (name other : String) (value : Option Value) :
    (module.define other value).declares name = (decide (name = other) || module.declares name) := by
  have added : name ∈ module.declared.add other ↔ name = other ∨ name ∈ module.declared :=
    NameSet.mem_add
  have same : (module.define other value).declares name = (module.declared.add other).contains name := by
    cases value <;> rfl
  rw [same, Bool.eq_iff_iff, Bool.or_eq_true, decide_eq_true_iff]
  exact added

theorem declares_defineAll (name : String) (entries : List (String × Value)) :
    (module.defineAll entries).declares name =
      ((Table.findIn name entries.reverse).isSome || module.declares name) := by
  unfold defineAll
  induction entries generalizing module with
  | nil => rfl
  | cons entry rest ih =>
    rw [List.foldl_cons, ih, declares_define, List.reverse_cons, Table.findIn_append]
    by_cases same : name = entry.1 <;> simp [Table.findIn, same]

theorem peek_effect (m : ModuleId) (name : String) (event : Event) :
    (event.effect m module).peek name = (event.written? m name).or (module.peek name) := by
  cases event with
  | settled n other value =>
    simp only [Event.effect, Event.written?]
    by_cases here : n = m
    · simp only [here, if_true, true_and, peek_bind]
      split <;> rfl
    · simp [here]
  | forwarded n source localName remoteName value =>
    simp only [Event.effect, Event.written?]
    by_cases here : n = m
    · simp only [here, if_true, true_and, peek_define]
    · simp [here]
  | merged n source entries seen declared =>
    simp only [Event.effect, Event.written?]
    by_cases here : n = m
    · simp only [here, if_true]
      exact peek_defineAll module name entries
    · simp [here]
  | _ => rfl

theorem declares_effect (m : ModuleId) (name : String) (event : Event) :
    (event.effect m module).declares name = (event.brings m name || module.declares name) := by
  cases event with
  | settled n other value =>
    simp only [Event.effect]
    split <;> rfl
  | forwarded n source localName remoteName value =>
    simp only [Event.effect, Event.brings]
    by_cases here : n = m
    · simp [here, declares_define]
    · simp [here]
  | merged n source entries seen declared =>
    simp only [Event.effect, Event.brings]
    by_cases here : n = m
    · simp only [here, if_true, true_and, Bool.decide_eq_true]
      exact declares_defineAll module name entries
    · simp [here]
  | _ => rfl

/-- Does once more to a module what some events did, the latest of which stands first. -/
def replay (m : ModuleId) (events : List Event) : Module σ := events.foldr (Event.effect m) module

theorem peek_replay (m : ModuleId) (name : String) (events : List Event) :
    (module.replay m events).peek name =
      (events.findSome? (·.written? m name)).or (module.peek name) := by
  induction events with
  | nil => rfl
  | cons event rest ih =>
    have last := peek_effect (module.replay m rest) m name event
    rw [ih] at last
    refine last.trans ?_
    rw [List.findSome?_cons]
    cases event.written? m name <;> rfl

theorem declares_replay (m : ModuleId) (name : String) (events : List Event) :
    (module.replay m events).declares name =
      (events.any (·.brings m name) || module.declares name) := by
  induction events with
  | nil => rfl
  | cons event rest ih =>
    have last := declares_effect (module.replay m rest) m name event
    rw [ih] at last
    rw [List.any_cons, Bool.or_assoc]
    exact last

theorem surface_effect (m : ModuleId) (event : Event) :
    (event.effect m module).surface = event.effect m module.surface := by
  have define (module : Module σ) (name : String) (value : Option Value) :
      (module.define name value).surface = module.surface.define name value := by
    cases value <;> rfl
  have defineAll (entries : List (String × Value)) :
      (module.defineAll entries).surface = module.surface.defineAll entries := by
    unfold Module.defineAll
    induction entries generalizing module with
    | nil => rfl
    | cons entry rest ih => rw [List.foldl_cons, List.foldl_cons, ih, define]
  cases event with
  | settled =>
    simp only [Event.effect]
    split <;> rfl
  | forwarded =>
    simp only [Event.effect]
    split
    · exact define ..
    · rfl
  | merged n source entries =>
    simp only [Event.effect]
    split
    · exact congrArg Module.countMerge (defineAll entries)
    · rfl
  | _ => rfl

theorem surface_replay (m : ModuleId) (events : List Event) :
    (module.replay m events).surface = module.surface.replay m events := by
  induction events with
  | nil => rfl
  | cons event rest ih =>
    have last := surface_effect (module.replay m rest) m event
    rw [ih] at last
    exact last

end Module

namespace World

variable {before after world : World σ} {m : ModuleId} {name : String} {events : List Event}

/-- The events that were added to the journal, done once more to the names that the modules had, give
the names that they have. -/
structure Replays (before after : World σ) (events : List Event) : Prop where
  journal : after.journal = events ++ before.journal
  made : before.modules.length ≤ after.modules.length
  surface : ∀ m ∈ before, (after.module m).surface = ((before.module m).replay m events).surface

theorem Replays.of_surface (journal : after.journal = before.journal)
    (made : before.modules.length ≤ after.modules.length)
    (same : ∀ m ∈ before, (after.module m).surface = (before.module m).surface) :
    before.Replays after [] := ⟨journal, made, same⟩

theorem Replays.trans {first middle last : World σ} {early late : List Event}
    (replays : first.Replays middle early) (others : middle.Replays last late) :
    first.Replays last (late ++ early) where
  journal := by rw [others.journal, replays.journal, List.append_assoc]
  made := Nat.le_trans replays.made others.made
  surface m made := by
    have again : (first.module m).replay m (late ++ early) =
        ((first.module m).replay m early).replay m late := List.foldr_append
    rw [others.surface m (Nat.lt_of_lt_of_le made replays.made), Module.surface_replay,
      replays.surface m made, again, Module.surface_replay _ m late]

theorem replays_log {event : Event}
    (idle : ∀ (m : ModuleId) (module : Module σ), event.effect m module = module) :
    world.Replays (world.log event) [event] :=
  ⟨rfl, Nat.le_refl _, fun m _ => congrArg Module.surface (idle m (world.module m)).symm⟩

theorem record_of_mem (made : m ∈ world) (event : Event) : world.record m event = world.log event :=
  if_pos made

/-- A change of one module that comes with the event that tells of it. -/
theorem exists_replays_record {event : Event} {change : Module σ → Module σ}
    (effect : ∀ module : Module σ, (change module).surface = (event.effect m module).surface)
    (apart : ∀ n, n ≠ m → ∀ module : Module σ, event.effect n module = module) :
    ∃ events, world.Replays ((world.record m event).update m change) events := by
  have length : ((world.record m event).update m change).modules.length = world.modules.length := by
    rw [length_update, modules_record]
  by_cases made : m ∈ world
  · have logged : (world.record m event).update m change = (world.log event).update m change := by
      rw [record_of_mem made]
    refine ⟨[event], by rw [logged]; rfl, Nat.le_of_eq length.symm, fun n old => ?_⟩
    by_cases same : n = m
    · subst same
      have here : n ∈ world.record n event := by rwa [mem_iff, modules_record]
      rw [module_update_self change here, module_record, effect]
      rfl
    · rw [module_update_of_ne _ same, module_record]
      exact congrArg Module.surface (apart n same (world.module n)).symm
  · have skipped : world.record m event = world := if_neg made
    refine ⟨[], .of_surface ?_ (Nat.le_of_eq length.symm) fun n old => ?_⟩
    · rw [skipped]
      rfl
    · have other : n ≠ m := fun same => made (same ▸ old)
      rw [module_update_of_ne _ other, module_record]

theorem record_update (world : World σ) (m n : ModuleId) (change : Module σ → Module σ)
    (event : Event) :
    (world.update m change).record n event = (world.record n event).update m change := by
  unfold record
  rw [length_update]
  split <;> rfl

theorem Change.exists_replays (change : before.Change after) : ∃ events, before.Replays after events := by
  cases change with
  | aside modules journal =>
    refine ⟨[], .of_surface journal (Nat.le_of_eq (congrArg List.length modules.symm)) fun m _ => ?_⟩
    rw [module_eq_of_modules_eq modules]
  | @noted event plain =>
    refine ⟨[event], replays_log fun m module => ?_⟩
    cases event <;> first | rfl | cases plain
  | created names config =>
    have grows := before.grows_create names config
    refine ⟨[], .of_surface rfl grows.made fun m made => ?_⟩
    rw [module_create_of_mem made]
  | @settled m name value =>
    exact exists_replays_record (fun module => by simp [Event.effect])
      fun n other module => by simp [Event.effect, Ne.symm other]
  | merged m source =>
    unfold merge
    rw [record_update]
    exact exists_replays_record (fun module => by simp [Event.effect])
      fun n other module => by simp [Event.effect, Ne.symm other]
  | forwarded m source localName remoteName value =>
    exact exists_replays_record (fun module => by simp [Event.effect])
      fun n other module => by simp [Event.effect, Ne.symm other]
  | loaded =>
    rw [record_update]
    exact exists_replays_record (fun _ => rfl) fun _ _ _ => rfl
  | queued code =>
    unfold enqueue
    rw [record_update]
    exact exists_replays_record (fun _ => rfl) fun _ _ _ => rfl
  | @registered m gone =>
    refine ⟨[], .of_surface rfl (Nat.le_of_eq (length_update ..).symm) fun n _ => ?_⟩
    exact congr_update Module.surface before m n _ fun _ => rfl
  | @started m ticket loaded =>
    rw [record_of_mem (mem_of_isLoaded loaded)]
    exact ⟨_, replays_log fun _ _ => rfl⟩

theorem obeyed_replays :
    Obeyed fun before after : World σ => ∃ events, before.Replays after events where
  refl world := ⟨[], .of_surface rfl (Nat.le_refl _) fun _ _ => rfl⟩
  trans early late := by
    obtain ⟨before, replays⟩ := early
    obtain ⟨after, others⟩ := late
    exact ⟨after ++ before, replays.trans others⟩
  turn turn world := by
    have made : world.modules.length ≤ (turn.apply world).modules.length :=
      Nat.le_of_eq (turn.length_apply world).symm
    refine ⟨[], .of_surface (turn.journal_apply world) made fun m _ => ?_⟩
    exact turn.congr_apply Module.surface world m (Module.surface_change · turn)
  change changed := changed.exists_replays

theorem Replays.peek (replays : before.Replays after events) (made : m ∈ before) (name : String) :
    (after.module m).peek name =
      (events.findSome? (·.written? m name)).or ((before.module m).peek name) := by
  have same := congrArg (Module.peek · name) (replays.surface m made)
  exact Eq.trans same (Module.peek_replay _ m name events)

theorem Replays.declares (replays : before.Replays after events) (made : m ∈ before)
    (name : String) : (after.module m).declares name =
      (events.any (·.brings m name) || (before.module m).declares name) := by
  have same := congrArg (Module.declares · name) (replays.surface m made)
  exact Eq.trans same (Module.declares_replay _ m name events)

end World

namespace Module

variable {module other : Module σ} {name : String}

/-- Only declared names have values. -/
def Sealed (module : Module σ) : Prop :=
  ∀ name, (module.peek name).isSome = true → module.declares name = true

theorem Sealed.of_surface (sealed : module.Sealed) (same : other.surface = module.surface) :
    other.Sealed := by
  intro name settled
  have peek := congrArg (Module.peek · name) same
  have declares := congrArg (Module.declares · name) same
  rw [show other.peek name = module.peek name from peek] at settled
  exact Eq.trans declares (sealed name settled)

theorem Sealed.bind (sealed : module.Sealed) (declared : module.declares name = true)
    (value : Value) : (module.bind name value).Sealed := by
  intro key settled
  rw [peek_bind] at settled
  split at settled
  · next same =>
    rw [same]
    exact declared
  · exact sealed key settled

theorem Sealed.define (sealed : module.Sealed) (name : String) (value : Option Value) :
    (module.define name value).Sealed := by
  intro key settled
  rw [peek_define] at settled
  rw [declares_define, Bool.or_eq_true, decide_eq_true_iff]
  by_cases same : key = name
  · exact .inl same
  · rw [if_neg same] at settled
    exact .inr (sealed key settled)

theorem Sealed.defineAll (sealed : module.Sealed) (entries : List (String × Value)) :
    (module.defineAll entries).Sealed := by
  unfold Module.defineAll
  induction entries generalizing module with
  | nil => exact sealed
  | cons entry rest ih => exact ih (sealed.define entry.1 (some entry.2))

end Module

namespace World

variable {before after world : World σ} {m : ModuleId}

theorem sealed_update (sealed : ∀ n, (world.module n).Sealed) {change : Module σ → Module σ}
    (keeps : (world.module m).Sealed → (change (world.module m)).Sealed) (n : ModuleId) :
    ((world.update m change).module n).Sealed := by
  by_cases same : n = m
  · subst same
    by_cases made : n ∈ world
    · rw [module_update_self change made]
      exact keeps (sealed n)
    · have missing : n ∉ world.update n change := by rwa [mem_iff, length_update]
      rw [module_of_not_mem missing]
      exact fun _ => nofun
  · rw [module_update_of_ne world same]
    exact sealed n

theorem sealed_record (sealed : ∀ n, (world.module n).Sealed) (event : Event) (n : ModuleId) :
    ((world.record m event).module n).Sealed := by
  rw [module_record]
  exact sealed n

theorem sealed_create (sealed : ∀ n, (world.module n).Sealed) (names : List ExportName)
    (config : Config) (n : ModuleId) : ((world.create names config).2.module n).Sealed := by
  rw [module_create]
  split
  · exact fun _ => nofun
  · exact sealed n

theorem Change.sealed (change : before.Change after) (sealed : ∀ n, (before.module n).Sealed) :
    ∀ n, (after.module n).Sealed := by
  have unwritten {world : World σ} (closed : ∀ n, (world.module n).Sealed) (m : ModuleId)
      {change : Module σ → Module σ}
      (same : ∀ module : Module σ, (change module).surface = module.surface) :
      ∀ n, ((world.update m change).module n).Sealed :=
    sealed_update closed fun closed => closed.of_surface (same _)
  cases change with
  | aside modules =>
    intro n
    rw [module_eq_of_modules_eq modules]
    exact sealed n
  | noted => exact sealed
  | created names config => exact sealed_create sealed names config
  | @settled m name value declared =>
    refine sealed_update (sealed_record sealed _) fun closed => closed.bind ?_ value
    rwa [module_record]
  | merged m source =>
    have merged : ∀ n, ((before.update m fun module =>
        (module.defineAll (before.offered source)).countMerge).module n).Sealed :=
      sealed_update sealed fun closed => closed.defineAll (before.offered source)
    exact sealed_record merged _
  | forwarded m source localName remoteName value =>
    exact sealed_update (sealed_record sealed _) fun closed => closed.define localName value
  | @loaded m =>
    have loads : ∀ n, ((before.update m Module.load).module n).Sealed :=
      unwritten sealed m fun _ => rfl
    exact sealed_record loads _
  | @queued m queue code =>
    have queues : ∀ n, ((before.update m (·.register
        (some (queue ++ [⟨(before.module m).tickets, code⟩])))).module n).Sealed :=
      unwritten sealed m fun _ => rfl
    exact sealed_record queues _
  | @registered m => exact unwritten sealed m fun _ => rfl
  | started => exact sealed_record sealed _

theorem obeyed_sealed : Obeyed fun before after : World σ =>
    (∀ m, (before.module m).Sealed) → ∀ m, (after.module m).Sealed where
  refl _ sealed := sealed
  trans early late sealed := late (early sealed)
  turn turn world sealed := by
    intro m
    have same := turn.congr_apply Module.surface world m (Module.surface_change · turn)
    exact (sealed m).of_surface same
  change changed sealed := changed.sealed sealed

end World

theorem Run.sealed {machine : Machine σ} {turns : List (Turn σ)} (run : Run allowed machine turns)
    (m : ModuleId) : (machine.world.module m).Sealed := by
  refine run.holds (fun world => ∀ m, (world.module m).Sealed) ?_ ?_ ?_ m
  · exact fun template host m name => nofun
  · exact fun turn world => World.obeyed_sealed.turn turn world
  · exact fun change => change.sealed

end LiveBindings
