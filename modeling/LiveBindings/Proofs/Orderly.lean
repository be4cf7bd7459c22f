import LiveBindings.Proofs.History

namespace LiveBindings

variable {σ : Type} {allowed : Program σ → Prop}

inductive State.Moves : State → State → Prop
  | attach : Moves .pending .suspended
  | complete : Moves .suspended .completed
  | fail : Moves .suspended .failed

inductive Life.Shaped : Life σ → Prop
  | pending {held} : Shaped ⟨.empty, held, 0⟩
  | suspended {body held steps} : Shaped ⟨⟨some body, .suspended, none⟩, held, steps⟩
  | completed {held steps} : Shaped ⟨⟨none, .completed, none⟩, held, steps⟩
  | failed {cause held steps} : Shaped ⟨⟨none, .failed, some cause⟩, held, steps⟩

theorem Life.Shaped.regardless {slot : Slot σ} {held other : Bool} {steps : Nat}
    (shaped : Shaped ⟨slot, held, steps⟩) : Shaped ⟨slot, other, steps⟩ := by
  cases shaped with
  | pending => exact .pending
  | suspended => exact .suspended
  | completed => exact .completed
  | failed => exact .failed

theorem Life.Shaped.of_pending {slot : Slot σ} {held : Bool} {steps : Nat}
    (shaped : Shaped ⟨slot, held, steps⟩) (pending : slot.state = .pending) :
    slot = .empty ∧ steps = 0 := by
  cases shaped with
  | pending => exact ⟨rfl, rfl⟩
  | suspended => cases pending
  | completed => cases pending
  | failed => cases pending

/-- Only a suspended slot is ready, and it has the body: a slot that is suspended without a body
does not come up. -/
theorem Life.Shaped.of_ready {slot : Slot σ} {held : Bool} {steps : Nat} {body : Body σ}
    (shaped : Shaped ⟨slot, held, steps⟩) (ready : slot.readiness = .ready body) :
    slot = ⟨some body, .suspended, none⟩ := by
  cases shaped with
  | pending => cases ready
  | suspended => cases ready; rfl
  | completed => cases ready
  | failed => cases ready

/-- A module that was not made is held for ever. -/
theorem World.mem_of_free {world : World σ} {m : ModuleId} (free : (world.module m).held = false) :
    m ∈ world := by
  refine Classical.byContradiction fun missing => ?_
  rw [module_of_not_mem missing] at free
  cases free

/-- What a frame that holds a module expects of the module's slot. -/
inductive Frame.Fits (world : World σ) : Frame σ → Prop
  | building {m body} : (world.module m).slot = .empty → Fits world (.building m body)
  | stepping {m body demand} :
      (world.module m).slot = ⟨some (Body.advanced body), .suspended, none⟩ →
      Fits world (.stepping m body.verdict demand)

def owners (frames : List (Frame σ)) : List ModuleId := frames.filterMap Frame.owner?

/-- The frames of a stack account for the modules that are held. -/
structure Orderly (world : World σ) (frames : List (Frame σ)) : Prop where
  distinct : (owners frames).Nodup
  held : ∀ m, m ∈ owners frames ↔ m ∈ world ∧ (world.module m).held = true
  shaped : ∀ m ∈ world, (world.module m).life.Shaped
  fits : ∀ frame ∈ frames, frame.owner?.isSome → frame.Fits world

theorem Frame.Fits.congr {before after : World σ} {frame : Frame σ} {m : ModuleId}
    (fits : frame.Fits before) (owner : frame.owner? = some m)
    (same : (after.module m).slot = (before.module m).slot) : frame.Fits after := by
  cases fits with
  | building slot =>
    cases owner
    exact .building (same.trans slot)
  | stepping slot =>
    cases owner
    exact .stepping (same.trans slot)

theorem mem_owners {frames : List (Frame σ)} {m : ModuleId} :
    m ∈ owners frames ↔ ∃ frame ∈ frames, frame.owner? = some m := by
  simp [owners, List.mem_filterMap]

theorem owners_cons {frame : Frame σ} {m : ModuleId} (owner : frame.owner? = some m)
    (frames : List (Frame σ)) : owners (frame :: frames) = m :: owners frames := by
  unfold owners
  rw [List.filterMap_cons_some owner]

theorem owners_holding (stack : List (Frame σ)) : owners (holding stack) = owners stack := by
  unfold owners holding
  induction stack with
  | nil => rfl
  | cons frame rest ih =>
    cases owner : frame.owner? with
    | none => simpa [owner] using ih
    | some m => simpa [owner] using ih

namespace Orderly

variable {world before after : World σ} {frame : Frame σ} {frames : List (Frame σ)} {m : ModuleId}

theorem free (orderly : Orderly world frames) (made : m ∈ world) (outside : m ∉ owners frames) :
    (world.module m).held = false := by
  rw [← Bool.not_eq_true]
  intro held
  exact outside ((orderly.held m).mpr ⟨made, held⟩)

theorem keeps (orderly : Orderly before frames) (keeps : before.Keeps after) :
    Orderly after frames where
  distinct := orderly.distinct
  held m := by
    rw [orderly.held]
    constructor
    · rintro ⟨member, held⟩
      have same := congrArg Life.held (keeps.life m member)
      exact ⟨Nat.lt_of_lt_of_le member keeps.made, Eq.trans same held⟩
    · rintro ⟨member, held⟩
      by_cases old : m ∈ before
      · have same := congrArg Life.held (keeps.life m old)
        exact ⟨old, same.symm.trans held⟩
      · have fresh := congrArg Life.held (keeps.fresh m member old)
        cases held.symm.trans fresh
  shaped m member := by
    by_cases old : m ∈ before
    · rw [keeps.life m old]
      exact orderly.shaped m old
    · rw [keeps.fresh m member old]
      exact .pending
  fits frame member owned := by
    obtain ⟨m, owner⟩ := Option.isSome_iff_exists.mp owned
    have old := ((orderly.held m).mp (mem_owners.mpr ⟨frame, member, owner⟩)).1
    exact (orderly.fits frame member owned).congr owner (congrArg Life.slot (keeps.life m old))

/-- A frame that takes hold of a module nobody holds. -/
theorem push (orderly : Orderly world frames) {change : Module σ → Module σ} (made : m ∈ world)
    (free : (world.module m).held = false) (owner : frame.owner? = some m)
    (taken : (change (world.module m)).held = true)
    (shaped : (change (world.module m)).life.Shaped)
    (fits : frame.Fits (world.update m change)) : Orderly (world.update m change) (frame :: frames) := by
  have outside : m ∉ owners frames := fun inside => by
    have held := ((orderly.held m).mp inside).2
    rw [free] at held
    cases held
  refine ⟨?_, ?_, ?_, ?_⟩
  · rw [owners_cons owner]
    exact List.nodup_cons.mpr ⟨outside, orderly.distinct⟩
  · intro other
    rw [owners_cons owner, List.mem_cons, World.mem_iff, World.length_update]
    by_cases same : other = m
    · subst other
      rw [World.module_update_self change made]
      exact ⟨fun _ => ⟨made, taken⟩, fun _ => Or.inl rfl⟩
    · rw [World.module_update_of_ne world same, orderly.held]
      exact ⟨fun inside => inside.resolve_left same, Or.inr⟩
  · intro other member
    rw [World.mem_iff, World.length_update] at member
    by_cases same : other = m
    · subst other
      rwa [World.module_update_self change made]
    · rw [World.module_update_of_ne world same]
      exact orderly.shaped other member
  · intro other member owned
    rcases List.mem_cons.mp member with same | inside
    · rwa [same]
    · obtain ⟨owned', otherOwner⟩ := Option.isSome_iff_exists.mp owned
      have differs : owned' ≠ m := fun same =>
        outside (mem_owners.mpr ⟨other, inside, same ▸ otherOwner⟩)
      exact (orderly.fits other inside owned).congr otherOwner
        (congrArg Module.slot (World.module_update_of_ne world differs change))

/-- The innermost frame lets go of its module. -/
theorem pop (orderly : Orderly world (frame :: frames)) {change : Module σ → Module σ}
    (owner : frame.owner? = some m) (freed : (change (world.module m)).held = false)
    (shaped : (change (world.module m)).life.Shaped) : Orderly (world.update m change) frames := by
  have distinct := orderly.distinct
  rw [owners_cons owner, List.nodup_cons] at distinct
  have made := ((orderly.held m).mp (mem_owners.mpr ⟨frame, List.mem_cons_self, owner⟩)).1
  refine ⟨distinct.2, ?_, ?_, ?_⟩
  · intro other
    rw [World.mem_iff, World.length_update]
    by_cases same : other = m
    · subst other
      rw [World.module_update_self change made, freed]
      exact ⟨fun inside => absurd inside distinct.1, fun ⟨_, held⟩ => by cases held⟩
    · have held := orderly.held other
      rw [owners_cons owner, List.mem_cons] at held
      rw [World.module_update_of_ne world same]
      exact ⟨fun inside => held.mp (Or.inr inside), fun inside => (held.mpr inside).resolve_left same⟩
  · intro other member
    rw [World.mem_iff, World.length_update] at member
    by_cases same : other = m
    · subst other
      rwa [World.module_update_self change made]
    · rw [World.module_update_of_ne world same]
      exact orderly.shaped other member
  · intro other inside owned
    obtain ⟨owned', otherOwner⟩ := Option.isSome_iff_exists.mp owned
    have differs : owned' ≠ m := fun same =>
      distinct.1 (mem_owners.mpr ⟨other, inside, same ▸ otherOwner⟩)
    exact (orderly.fits other (List.mem_cons_of_mem _ inside) owned).congr otherOwner
      (congrArg Module.slot (World.module_update_of_ne world differs change))

theorem turn {turn : Turn σ} {later : List (Frame σ)} (orderly : Orderly world frames)
    (enabled : turn.Enabled world) (moves : turn.Moves frames later) :
    Orderly (turn.apply world) later := by
  -- A frame comes with its module free and goes with its module held, so no module has two frames.
  cases moves with
  | quiet => exact orderly
  | @making m body =>
    obtain ⟨free, pending⟩ := enabled
    have made := World.mem_of_free free
    have shaped := orderly.shaped m made
    refine orderly.push made free rfl rfl shaped.regardless (.building ?_)
    rw [World.module_update_self _ made]
    exact (shaped.of_pending pending).1
  | @attached m body =>
    cases orderly.fits _ List.mem_cons_self rfl with
    | building slot =>
      refine orderly.pop rfl rfl ?_
      show Life.Shaped ⟨{ (world.module m).slot with body := some body, state := .suspended }, _, _⟩
      rw [slot]
      exact .suspended
  | dropped =>
    have made := ((orderly.held _).mp (mem_owners.mpr ⟨_, List.mem_cons_self, rfl⟩)).1
    exact orderly.pop rfl rfl (orderly.shaped _ made).regardless
  | @began m body demand =>
    obtain ⟨free, ready⟩ := enabled
    have made := World.mem_of_free free
    have slot := (orderly.shaped m made).of_ready ready
    refine orderly.push made free rfl rfl ?_ (.stepping ?_)
    · show Life.Shaped ⟨{ (world.module m).slot with body := some body.advanced }, _, _⟩
      rw [slot]
      exact .suspended
    · rw [World.module_update_self _ made]
      simp only [Turn.change, Module.resumed, slot]
  | @yielded m =>
    cases orderly.fits _ List.mem_cons_self rfl with
    | stepping slot =>
      refine orderly.pop rfl rfl ?_
      show Life.Shaped ⟨{ (world.module m).slot with state := .suspended }, _, _⟩
      rw [slot]
      exact .suspended
  | @completed m =>
    cases orderly.fits _ List.mem_cons_self rfl with
    | stepping slot =>
      refine orderly.pop rfl rfl ?_
      show Life.Shaped ⟨{ (world.module m).slot with body := none, state := .completed }, _, _⟩
      rw [slot]
      exact .completed
  | failed => exact orderly.pop rfl rfl .failed
  | unwound =>
    -- A panic leaves the slot as it was when the resumption began, ready for the next one.
    have made := ((orderly.held _).mp (mem_owners.mpr ⟨_, List.mem_cons_self, rfl⟩)).1
    exact orderly.pop rfl rfl (orderly.shaped _ made).regardless

end Orderly

theorem Machine.orderly_step {machine : Machine σ}
    (orderly : Orderly machine.world (holding machine.stack)) :
    Orderly machine.step.world (holding machine.step.stack) :=
  (orderly.turn machine.transition.enabled machine.transition.moves).keeps machine.transition.keeps

theorem Run.orderly {machine : Machine σ} {turns : List (Turn σ)} (run : Run allowed machine turns) :
    Orderly machine.world (holding machine.stack) := by
  induction run with
  | start template host =>
    have missing (m : ModuleId) : m ∉ World.empty (σ := σ) template host := Nat.not_lt_zero m
    refine ⟨.nil, fun m => ⟨fun inside => ?_, fun ⟨member, _⟩ => absurd member (missing m)⟩,
      fun m member => absurd member (missing m), fun frame inside => ?_⟩
    · cases inside
    · cases inside
  | step _ ih => exact Machine.orderly_step ih
  | next _ ended _ ih =>
    rw [Machine.eq_of_outcome? ended] at ih
    exact ih

theorem Orderly.mem_of_about {world : World σ} {turn : Turn σ} {frames later : List (Frame σ)}
    {m : ModuleId} (orderly : Orderly world frames) (enabled : turn.Enabled world)
    (moves : turn.Moves frames later) (about : turn.about? = some m) : m ∈ world := by
  cases moves with
  | quiet => cases about
  | making | began =>
    cases about
    exact World.mem_of_free enabled.1
  | attached | dropped | yielded | completed | failed | unwound =>
    cases about
    exact ((orderly.held m).mp (mem_owners.mpr ⟨_, List.mem_cons_self, rfl⟩)).1

/-- A turn is about a module whose body has not come to its end, and it makes the stored state move
or stay. -/
theorem Orderly.state_change {world : World σ} {turn : Turn σ} {frames later : List (Frame σ)}
    {m : ModuleId} (orderly : Orderly world frames) (enabled : turn.Enabled world)
    (moves : turn.Moves frames later) (about : turn.about? = some m) :
    (world.module m).slot.state.isFinal = false ∧
      ((turn.change (world.module m)).slot.state = (world.module m).slot.state ∨
        (world.module m).slot.state.Moves (turn.change (world.module m)).slot.state) := by
  cases moves with
  | quiet => cases about
  | making =>
    cases about
    refine ⟨?_, Or.inl rfl⟩
    rw [enabled.2]
    rfl
  | attached =>
    cases about
    cases orderly.fits _ List.mem_cons_self rfl with
    | building slot =>
      rw [slot]
      exact ⟨rfl, Or.inr .attach⟩
  | dropped =>
    cases about
    cases orderly.fits _ List.mem_cons_self rfl with
    | building slot =>
      refine ⟨?_, Or.inl rfl⟩
      rw [slot]
      rfl
  | began =>
    cases about
    have shaped := orderly.shaped m (World.mem_of_free enabled.1)
    refine ⟨?_, Or.inl rfl⟩
    rw [shaped.of_ready enabled.2]
    rfl
  | yielded =>
    cases about
    cases orderly.fits _ List.mem_cons_self rfl with
    | stepping slot =>
      rw [slot]
      exact ⟨rfl, Or.inl rfl⟩
  | completed =>
    cases about
    cases orderly.fits _ List.mem_cons_self rfl with
    | stepping slot =>
      rw [slot]
      exact ⟨rfl, Or.inr .complete⟩
  | failed =>
    cases about
    cases orderly.fits _ List.mem_cons_self rfl with
    | stepping slot =>
      rw [slot]
      exact ⟨rfl, Or.inr .fail⟩
  | unwound =>
    cases about
    cases orderly.fits _ List.mem_cons_self rfl with
    | stepping slot =>
      refine ⟨?_, Or.inl rfl⟩
      rw [slot]
      rfl

/-- A module is held exactly while a frame on the stack holds it, so nobody holds a module when
nothing waits. -/
theorem Run.held_iff {machine : Machine σ} {turns : List (Turn σ)} {m : ModuleId}
    (run : Run allowed machine turns) (made : m ∈ machine.world) :
    (machine.world.module m).held = true ↔ ∃ frame ∈ machine.stack, frame.owner? = some m := by
  have held := run.orderly.held m
  rw [mem_owners] at held
  constructor
  · intro taken
    obtain ⟨frame, member, owner⟩ := held.mpr ⟨made, taken⟩
    exact ⟨frame, (List.mem_filter.mp member).1, owner⟩
  · rintro ⟨frame, member, owner⟩
    exact (held.mp ⟨frame, List.mem_filter.mpr ⟨member, by rw [owner]; rfl⟩, owner⟩).2

theorem Run.fits {machine : Machine σ} {turns : List (Turn σ)} {frame : Frame σ} {m : ModuleId}
    (run : Run allowed machine turns) (member : frame ∈ machine.stack)
    (owner : frame.owner? = some m) : frame.Fits machine.world := by
  have owned : frame.owner?.isSome = true := by rw [owner]; rfl
  exact run.orderly.fits frame (List.mem_filter.mpr ⟨member, owned⟩) owned

end LiveBindings
