import LiveBindings.Proofs.Family

namespace LiveBindings

variable {σ : Type}

namespace Family

variable {family : Family} {j : ModuleId} {draft : Draft} {clause : Clause} {module : Module σ}

/-- What a module has settled once the first `position` of its statements have run. -/
structure Written (family : Family) (j : ModuleId) (draft : Draft) (position : Nat)
    (module : Module σ) : Prop where
  closed : module.wildcards = 0
  unhooked : module.hooks = none ∨ module.hooks = some []
  declares : ∀ clause ∈ draft.clauses, clause.name ∈ module.declared
  right : ∀ name value, module.peek name = some value → value = family.den j name
  passed : ∀ clause ∈ draft.clauses.take position, module.peek clause.name = none →
    family.den j clause.name = .undefined

/-- Where a module of a family stands between resumptions. -/
inductive Stands (family : Family) (j : ModuleId) (draft : Draft) (module : Module σ) : Nat → Prop
  | waiting {position} : position ≤ draft.clauses.length → module.held = false →
      module.slot = ⟨some (draft.body.after position), .suspended, none⟩ →
      family.Written j draft position module → Stands family j draft module position
  | ended : module.held = false → module.slot = ⟨none, .completed, none⟩ →
      family.Written j draft draft.clauses.length module →
      Stands family j draft module draft.clauses.length

/-- The modules of the family of lower rank than a bound. -/
def Below (family : Family) (bound : Nat) (j : ModuleId) : Prop :=
  (family.draft j).isSome ∧ family.rank j < bound

/-- All modules of lower rank than a bound stand between resumptions. -/
def Sound (family : Family) (bound : Nat) (world : World σ) : Prop :=
  ∀ j draft, family.draft j = some draft → family.rank j < bound →
    ∃ position, family.Stands j draft (world.module j) position

/-- Modules of lower rank than a bound may have gone on, and the others are as they were. -/
structure Advances (family : Family) (bound : Nat) (before after : World σ) : Prop where
  sound : family.Sound bound after
  apart : ∀ m, ¬ family.Below bound m → after.module m = before.module m

theorem Sound.of_modules_eq {bound : Nat} {before after : World σ} (sound : family.Sound bound before)
    (same : after.modules = before.modules) : family.Sound bound after := by
  intro j draft drawn lower
  rw [World.module_eq_of_modules_eq same]
  exact sound j draft drawn lower

theorem Advances.refl {bound : Nat} {world : World σ} (sound : family.Sound bound world) :
    family.Advances bound world world := ⟨sound, fun _ _ => rfl⟩

theorem Advances.trans {bound : Nat} {first middle last : World σ}
    (early : family.Advances bound first middle) (late : family.Advances bound middle last) :
    family.Advances bound first last :=
  ⟨late.sound, fun m other => (late.apart m other).trans (early.apart m other)⟩

theorem Advances.of_modules_eq {bound : Nat} {before middle after : World σ}
    (advances : family.Advances bound before middle) (same : after.modules = middle.modules) :
    family.Advances bound before after :=
  ⟨advances.sound.of_modules_eq same, fun m other =>
    (World.module_eq_of_modules_eq same m).trans (advances.apart m other)⟩

theorem written_module (draft : Draft) :
    family.Written j draft 0 (draft.module : Module σ) where
  closed := by
    simp [Draft.module, Module.attach, Module.release, Module.fresh, Module.wildcardsOf,
      List.count_eq_zero]
  unhooked := .inr rfl
  declares := draft.declared
  right name value settled := by cases settled
  passed clause early := by
    rw [List.take_zero] at early
    cases early

/-- A module of a draft whose body is attached stands before its first statement. -/
theorem stands_module (draft : Draft) : family.Stands j draft (draft.module : Module σ) 0 :=
  .waiting (Nat.zero_le _) rfl rfl (written_module draft)

namespace Written

variable {position : Nat}

/-- Only wildcards, hooks, names and values count. -/
theorem of_surface {other : Module σ} (written : family.Written j draft position module)
    (wildcards : other.wildcards = module.wildcards)
    (hooks : other.hooks = module.hooks ∨ other.hooks = none)
    (declared : other.declared = module.declared) (bindings : other.bindings = module.bindings) :
    family.Written j draft position other := by
  have peek (name : String) : other.peek name = module.peek name := by
    rw [Module.peek, bindings]
    rfl
  refine ⟨wildcards.trans written.closed, ?_, ?_, ?_, ?_⟩
  · rcases hooks with same | loaded
    · rw [same]
      exact written.unhooked
    · exact .inl loaded
  · rw [declared]
    exact written.declares
  · intro name value settled
    rw [peek] at settled
    exact written.right name value settled
  · intro clause early missing
    rw [peek] at missing
    exact written.passed clause early missing

theorem declare (written : family.Written j draft position module) (name : String) :
    family.Written j draft position { module with declared := module.declared.add name } where
  closed := written.closed
  unhooked := written.unhooked
  declares clause member := NameSet.mem_add.mpr (.inr (written.declares clause member))
  right := written.right
  passed := written.passed

theorem pass (written : family.Written j draft position module)
    (entry : draft.clauses[position]? = some clause)
    (passed : module.peek clause.name = none → family.den j clause.name = .undefined) :
    family.Written j draft (position + 1) module where
  closed := written.closed
  unhooked := written.unhooked
  declares := written.declares
  right := written.right
  passed other member := by
    rw [List.take_add_one, entry] at member
    rcases List.mem_append.mp member with early | last
    · exact written.passed other early
    · rw [List.mem_singleton.mp last]
      exact passed

theorem bind (written : family.Written j draft position module)
    (entry : draft.clauses[position]? = some clause) :
    family.Written j draft (position + 1)
      (module.bind clause.name (family.den j clause.name)) := by
  have find (name : String) : (module.bind clause.name (family.den j clause.name)).peek name =
      if name = clause.name then some (family.den j clause.name) else module.peek name :=
    Table.find?_insert ..
  refine ⟨written.closed, written.unhooked, written.declares, ?_, ?_⟩
  · intro name value settled
    rw [find] at settled
    split at settled
    · next same =>
      cases settled
      rw [same]
    · exact written.right name value settled
  · intro other member missing
    rw [find] at missing
    split at missing
    · cases missing
    · next differs =>
      rw [List.take_add_one, entry] at member
      rcases List.mem_append.mp member with early | last
      · exact written.passed other early missing
      · exact absurd (congrArg Clause.name (List.mem_singleton.mp last)) differs

/-- A re-export writes the value that the source has, or none for an undefined one. -/
theorem define (written : family.Written j draft position module)
    (entry : draft.clauses[position]? = some clause) {value : Option Value}
    (right : ∀ settled, value = some settled → settled = family.den j clause.name)
    (missing : value = none → family.den j clause.name = .undefined) :
    family.Written j draft (position + 1) (module.define clause.name value) := by
  cases value with
  | none => exact (written.declare clause.name).pass entry fun _ => missing rfl
  | some settled =>
    rw [right settled rfl]
    exact (written.declare clause.name).bind entry

/-- A name that the module cannot bring is undefined. -/
theorem undefined_of_ended (written : family.Written j draft draft.clauses.length module)
    (drawn : family.draft j = some draft) {name : String} (missing : module.peek name = none) :
    family.den j name = .undefined := by
  by_cases stated : ∃ clause ∈ draft.clauses, clause.name = name
  · obtain ⟨clause, member, rfl⟩ := stated
    exact written.passed clause (by rwa [List.take_length]) missing
  · exact den_of_unwritten drawn fun clause member same => stated ⟨clause, member, same⟩

theorem undefined_of_undeclared (written : family.Written j draft position module)
    (drawn : family.draft j = some draft) {name : String} (undeclared : module.awaits name = false) :
    family.den j name = .undefined := by
  refine den_of_unwritten drawn fun clause member same => ?_
  have declared : module.declares clause.name = true := written.declares clause member
  rw [same] at declared
  simp [Module.awaits, declared] at undeclared

end Written

theorem Stands.free {position : Nat} (stands : family.Stands j draft module position) :
    module.held = false := by
  cases stands with
  | waiting _ free => exact free
  | ended free => exact free

theorem Stands.written {position : Nat} (stands : family.Stands j draft module position) :
    family.Written j draft position module := by
  cases stands with
  | waiting _ _ _ written => exact written
  | ended _ _ written => exact written

theorem Stands.written_of_completed {position : Nat}
    (stands : family.Stands j draft module position)
    (completed : module.slot = ⟨none, .completed, none⟩) :
    family.Written j draft draft.clauses.length module := by
  cases stands with
  | waiting _ _ slot => cases slot.symm.trans completed
  | ended _ _ written => exact written

end Family

end LiveBindings
