import LiveBindings.Proofs.Advance
import LiveBindings.Proofs.Driving

namespace LiveBindings

open Machine

variable {σ : Type}

namespace World

/-- One module has come to be another, and the other modules are as they were. -/
structure Puts (before : World σ) (m : ModuleId) (module : Module σ) (after : World σ) : Prop where
  made : m ∈ after
  there : after.module m = module
  beside : ∀ other, other ≠ m → after.module other = before.module other

variable {first middle last world : World σ} {m : ModuleId} {module one other : Module σ}

theorem Puts.trans (early : first.Puts m one middle) (late : middle.Puts m other last) :
    first.Puts m other last :=
  ⟨late.made, late.there, fun m' differs => (late.beside m' differs).trans (early.beside m' differs)⟩

theorem Puts.record (puts : world.Puts m module last) (about : ModuleId) (event : Event) :
    world.Puts m module (last.record about event) := by
  refine ⟨?_, ?_, fun other differs => ?_⟩
  · rw [mem_iff, modules_record]
    exact puts.made
  · rw [module_record]
    exact puts.there
  · rw [module_record]
    exact puts.beside other differs

theorem Puts.update (puts : world.Puts m module last) (change : Module σ → Module σ) :
    world.Puts m (change module) (last.update m change) := by
  refine ⟨?_, ?_, fun other differs => ?_⟩
  · rw [mem_iff, length_update]
    exact puts.made
  · rw [module_update_self change puts.made, puts.there]
  · rw [module_update_of_ne _ differs]
    exact puts.beside other differs

theorem Puts.refl (made : m ∈ world) : world.Puts m (world.module m) world := ⟨made, rfl, fun _ _ => rfl⟩

theorem Puts.begun (puts : world.Puts m module last) (body : Body σ) :
    world.Puts m (module.resumed body) (last.begun m body) :=
  (puts.update (·.resumed body)).record ..

/-- The world after a name of a module was settled. -/
def bound (world : World σ) (m : ModuleId) (name : String) (value : Value) : World σ :=
  (world.record m (.settled m name value)).update m (·.bind name value)

theorem Puts.bound (puts : world.Puts m module last) (name : String) (value : Value) :
    world.Puts m (module.bind name value) (last.bound m name value) :=
  (puts.record ..).update (·.bind name value)

variable {statements : List (ModuleId → Program σ)} {count : Nat} {later ran : World σ}

theorem goes_statement {statement : ModuleId → Program σ} {value : Value}
    (entry : statements[count]? = some statement) (free : (world.module m).held = false)
    (slot : (world.module m).slot =
      ⟨some ((Body.ofStatements statements).after count), .suspended, none⟩)
    (ends : (Control.run (statement m)).Ends
      (world.begun m ((Body.ofStatements statements).after count)) (.returned value) ran) :
    world.Goes m .stepped (ran.update m Module.yield) := by
  have before : count < statements.length := (List.getElem?_eq_some_iff.mp entry).1
  rw [← Body.next_ofStatements (m := m) entry] at ends
  exact .yielded ⟨⟨free, by rw [slot]; rfl⟩, ends⟩
    ((Body.verdict_ofStatements count value).trans (if_pos before))

/-- The world after a resumption of a body that runs nothing and ends it, before the module loads. -/
def ended (world : World σ) (m : ModuleId) (body : Body σ) : World σ :=
  ((world.begun m body).update m Module.complete).record m
    (.completed m ((world.begun m body).module m).steps)

theorem Puts.ended (puts : world.Puts m module last) (body : Body σ) :
    world.Puts m (module.resumed body).complete (last.ended m body) :=
  ((puts.begun body).update Module.complete).record ..

theorem resumes_end (free : (world.module m).held = false)
    (slot : (world.module m).slot =
      ⟨some ((Body.ofStatements statements).after statements.length), .suspended, none⟩) :
    world.Resumes m ((Body.ofStatements statements).after statements.length) .unit
      (world.begun m ((Body.ofStatements statements).after statements.length)) := by
  have next : ((Body.ofStatements statements).after statements.length).next m = .done .unit :=
    Body.next_ofStatements_length
  refine ⟨⟨free, by rw [slot]; rfl⟩, ?_⟩
  rw [next]
  exact Control.ends_done .unit _

/-- After the last statement, the body ends and the module loads. -/
theorem goes_end (free : (world.module m).held = false)
    (slot : (world.module m).slot =
      ⟨some ((Body.ofStatements statements).after statements.length), .suspended, none⟩)
    (loads : Loads m (world.ended m ((Body.ofStatements statements).after statements.length)) later) :
    world.Goes m .stepped later :=
  .completed (resumes_end free slot) (Body.verdict_ofStatements_length .undefined) loads

theorem exists_goes_end (free : (world.module m).held = false)
    (slot : (world.module m).slot =
      ⟨some ((Body.ofStatements statements).after statements.length), .suspended, none⟩)
    (waiting : (world.module m).hooks = some []) :
    ∃ later, world.Goes m .stepped later ∧ world.Puts m ((world.module m).resumed
      ((Body.ofStatements statements).after statements.length)).complete.load later := by
  have ended := (Puts.refl (mem_of_free free)).ended
    ((Body.ofStatements statements).after statements.length)
  refine ⟨_, goes_end free slot (.now ?_ .nil), (ended.update Module.load).record ..⟩
  rw [ended.there]
  exact waiting

end World

namespace Draft

variable {draft : Draft} {clause : Clause} {world middle ran : World σ} {m : ModuleId}

theorem goes_clause (draft : Draft) (position : Nat) (entry : draft.clauses[position]? = some clause)
    (free : (world.module m).held = false)
    (slot : (world.module m).slot = ⟨some (draft.body.after position), .suspended, none⟩)
    (ends : (Control.run (clause.code m).program).Ends (world.begun m (draft.body.after position))
      .unit ran) : world.Goes m .stepped (ran.update m Module.yield) :=
  World.goes_statement (by rw [List.getElem?_map, entry]; rfl) free slot ends

theorem ends_settle {name : String} (declared : name ∈ (world.module m).declared) (value : Value) :
    (Control.run (Code.settle m name value).program).Ends world .unit (world.bound m name value) :=
  fun stack => reaches_settle declared value stack

theorem ends_read_clause {name : String} {target : Target} {value : Value}
    (asks : (Control.demand (.read .get target)).Ends world (.returned value) middle)
    (declared : name ∈ (middle.module m).declared) :
    (Control.run ((Clause.mk name (.read target)).code m).program).Ends world .unit
      (middle.bound m name value) := by
  have settles := ends_settle declared value
  exact Control.Ends.call asks settles

/-- After the last clause, the body ends and the module loads. -/
theorem exists_goes_end (draft : Draft) (free : (world.module m).held = false)
    (slot : (world.module m).slot =
      ⟨some (draft.body.after draft.clauses.length), .suspended, none⟩)
    (waiting : (world.module m).hooks = some []) :
    ∃ later, world.Goes m .stepped later ∧
      world.Puts m ((world.module m).resumed (draft.body.after draft.clauses.length)).complete.load
        later := by
  have length : draft.clauses.length =
      (draft.clauses.map fun clause m => (clause.code (σ := σ) m).program).length := by simp
  rw [length] at slot ⊢
  exact World.exists_goes_end free slot waiting

end Draft

end LiveBindings
