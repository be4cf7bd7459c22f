import LiveBindings.Proofs.Names
import LiveBindings.Proofs.Resolution

namespace LiveBindings

open Machine

variable {σ : Type} {allowed : Program σ → Prop}

namespace Machine

variable {machine : Machine σ} {m : ModuleId}

/-- Nothing is written to a module that was not made. -/
theorem written?_of_not_mem (missing : m ∉ machine.world) (name : String) :
    machine.written? m name = none := by
  unfold written?
  split
  · next n other value next control =>
    rw [if_neg]
    rintro ⟨_, declared, _⟩
    rw [World.module_of_not_mem missing] at declared
    cases declared
  · rw [if_neg]
    rintro ⟨rfl, made, _⟩
    exact missing made
  · next n entries next control =>
    split
    · next passes =>
      rw [World.module_of_not_mem missing] at passes
      cases entries with
      | nil => rfl
      | cons entry rest => cases passes.2
    · rfl
  · rw [if_neg]
    rintro ⟨rfl, made, _⟩
    exact missing made
  · rfl

/-- The name has a value exactly when something was written to it; the value is what was written last;
and reads that find it give it and change nothing. -/
structure Live (machine : Machine σ) (past : List (Machine σ)) (m : ModuleId) (name : String) :
    Prop where
  settled : ((machine.world.module m).peek name).isSome = true ↔
    ∃ earlier ∈ past, (earlier.written? m name).isSome = true
  last : (machine.world.module m).peek name = past.findSome? (·.written? m name)
  /-- Whichever way the name is read, the answer is there in the next transition. -/
  reads : ∀ value how target, (machine.world.module m).peek name = some value →
    target.source = m → target.remote = .ok name → ∀ stack,
      step ⟨.demand (.read how target), stack, machine.world⟩ =
        ⟨.answer (.returned value), stack, machine.world⟩

end Machine

theorem Trail.peek_eq {machine : Machine σ} {past : List (Machine σ)}
    (trail : Trail allowed machine past) (m : ModuleId) (name : String) :
    (machine.world.module m).peek name = past.findSome? (·.written? m name) := by
  induction trail with
  | start => rfl
  | next _ _ _ ih => exact ih
  | @step machine past trail ih =>
    rw [List.findSome?_cons]
    by_cases old : m ∈ machine.world
    · rw [peek_step old, ih]
      cases machine.written? m name <;> rfl
    · have unwritten : past.findSome? (·.written? m name) = none :=
        List.findSome?_eq_none_iff.mpr fun earlier member =>
          written?_of_not_mem (trail.not_mem_of_not_mem old member) name
      rw [written?_of_not_mem old, unwritten]
      by_cases made : m ∈ machine.step.world
      · obtain ⟨names, config, _, fresh⟩ := exists_makes old made
        rw [fresh]
        rfl
      · rw [World.module_of_not_mem made]
        rfl

/-- In every run, each name of each module is live. -/
theorem last_write_wins {machine : Machine σ} {past : List (Machine σ)}
    (trail : Trail allowed machine past) (m : ModuleId) (name : String) :
    machine.Live past m name := by
  have last := trail.peek_eq m name
  refine ⟨?_, last, ?_⟩
  · rw [last, List.findSome?_isSome_iff]
  · rintro value how target settled rfl remote stack
    exact Demand.step_read_of_settled how remote settled stack

/-- A module's body writes a name and then fails, and a merge brings another value. A view reads it. -/
def overwriting : Program Unit :=
  Code.program do
    let source ← Code.create [.named "x"] .standard
    let m ← Code.create [.named "x"] .standard
    let _ ← Code.settle source "x" (.boolean true)
    let _ ← Code.executeStatements m Code.unit [fun m => do
      let _ ← Code.settle m "x" .null
      Code.fail (.unknownImport "y")]
    let _ ← (Code.finish m).outcome
    let _ ← Code.merge m source
    Code.read .get (.viewed ⟨m, .ofList [("here", "x")]⟩ "here")

/-- The machine that is about to read. -/
def overwritten : Machine Unit := (Machine.start overwriting (.empty .standard ())).after 14

theorem last_write_wins_of_overwriting :
    ∃ past, overwritten.Live past 1 "x" ∧ (overwritten.world.module 1).state = .failed ∧
      past.filterMap (·.written? 1 "x") = [.boolean true, .null] ∧
      overwritten.step =
        ⟨.answer (.returned (.boolean true)), overwritten.stack, overwritten.world⟩ := by
  have trail : Trail (fun _ => True) overwritten _ := (Trail.start .standard () trivial).after 14
  have live := last_write_wins trail 1 "x"
  exact ⟨_, live, rfl, rfl, live.reads (.boolean true) .get _ rfl rfl rfl _⟩

end LiveBindings
