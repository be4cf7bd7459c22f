import LiveBindings.Proofs.Clauses
import LiveBindings.Proofs.Origin
import LiveBindings.Proofs.Resolution

namespace LiveBindings

open Machine

variable {σ : Type}

/-- The statements that export the listed names and values, one after another. -/
def exports (entries : List (String × Value)) : List (ModuleId → Program σ) :=
  entries.map fun entry m => (Code.settle m entry.1 entry.2).program

/-- How many steps of its body a module with the given exports has to have made for a read of a name:
the place of the first statement that exports it, or the step that ends the body for a declared name
without one, or none for any other name. -/
def need (names : List ExportName) (entries : List (String × Value)) (name : String) : Nat :=
  if (Module.declaredBy names).contains name then (entries.map Prod.fst).idxOf name + 1 else 0

theorem need_le (names : List ExportName) (entries : List (String × Value)) (name : String) :
    need names entries name ≤ entries.length + 1 := by
  have bound : (entries.map Prod.fst).idxOf name ≤ (entries.map Prod.fst).length :=
    List.idxOf_le_length
  rw [List.length_map] at bound
  unfold need
  split <;> omega

/-- A module with the given exports has made so many steps of a body that is a list of exports. -/
structure Module.Exported (module : Module σ) (names : List ExportName)
    (entries : List (String × Value)) (count : Nat) : Prop where
  free : module.held = false
  steps : module.steps = count
  bound : count ≤ entries.length + 1
  declared : module.declared = declaredBy names
  wildcards : module.wildcards = 0
  peek : ∀ name, module.peek name = Table.findIn name (entries.take count).reverse
  waiting : count ≤ entries.length →
    module.slot = ⟨some ((Body.ofStatements (exports entries)).after count), .suspended, none⟩ ∧
      module.hooks = some []
  ended : entries.length < count → module.slot = ⟨none, .completed, none⟩

variable {names : List ExportName} {entries : List (String × Value)} {name : String} {count : Nat}
  {world : World σ} {m : ModuleId} {module : Module σ}

namespace Module.Exported

theorem next {written : String × Value} (exported : module.Exported names entries count)
    (entry : entries[count]? = some written) :
    (((module.resumed ((Body.ofStatements (exports entries)).after count)).bind written.1
      written.2).yield).Exported names entries (count + 1) := by
  have before : count < entries.length := (List.getElem?_eq_some_iff.mp entry).1
  obtain ⟨slot, hooks⟩ := exported.waiting (Nat.le_of_lt before)
  refine ⟨rfl, congrArg (· + 1) exported.steps, by omega, exported.declared, exported.wildcards,
    fun name => ?_, fun _ => ⟨?_, hooks⟩, fun late => ?_⟩
  · refine (Module.peek_bind (module.resumed _) name written.1 written.2).trans ?_
    rw [List.take_add_one, entry, List.reverse_append]
    exact if_congr .rfl rfl (exported.peek name)
  · simp [Module.yield, Module.bind, Module.resumed, Module.hold, Module.release, slot,
      Body.advanced_after]
  · omega

theorem last (exported : module.Exported names entries entries.length) (body : Body σ) :
    (module.resumed body).complete.load.Exported names entries (entries.length + 1) := by
  obtain ⟨slot, _⟩ := exported.waiting (Nat.le_refl _)
  refine ⟨rfl, congrArg (· + 1) exported.steps, by omega, exported.declared, exported.wildcards,
    fun name => ?_, fun early => ?_, fun _ => ?_⟩
  · have peek := exported.peek name
    rw [List.take_length] at peek
    rwa [List.take_of_length_le (Nat.le_succ _)]
  · omega
  · simp [Module.load, Module.complete, Module.resumed, Module.hold, Module.release, slot]

/-- The next statement exports its name. -/
theorem exists_goes (exported : (world.module m).Exported names entries count)
    (declared : ∀ entry ∈ entries, entry.1 ∈ declaredBy names) (more : count < entries.length) :
    ∃ later, world.Goes m .stepped later ∧ (later.module m).Exported names entries (count + 1) := by
  have made := World.mem_of_free exported.free
  obtain ⟨slot, hooks⟩ := exported.waiting (Nat.le_of_lt more)
  have entry : entries[count]? = some entries[count] := List.getElem?_eq_getElem more
  have passes := declared entries[count] (List.getElem_mem more)
  generalize entries[count] = written at entry passes
  have begun := (World.Puts.refl made).begun ((Body.ofStatements (exports entries)).after count)
  have there : written.1 ∈ ((world.begun m
      ((Body.ofStatements (exports entries)).after count)).module m).declared := by
    rw [begun.there]
    exact exported.declared ▸ passes
  have yields := (begun.bound written.1 written.2).update Module.yield
  have statement : (exports entries : List (ModuleId → Program σ))[count]? =
      some fun m => (Code.settle m written.1 written.2).program := by
    rw [exports, List.getElem?_map, entry]
    rfl
  refine ⟨_, World.goes_statement statement exported.free slot (Draft.ends_settle there written.2), ?_⟩
  rw [yields.there]
  exact exported.next entry

/-- After the last statement, the body ends. -/
theorem exists_goes_end (exported : (world.module m).Exported names entries entries.length) :
    ∃ later, world.Goes m .stepped later ∧
      (later.module m).Exported names entries (entries.length + 1) := by
  obtain ⟨slot, hooks⟩ := exported.waiting (Nat.le_refl _)
  have length : entries.length = (exports entries : List (ModuleId → Program σ)).length := by
    simp [exports]
  rw [length] at slot
  obtain ⟨later, goes, puts⟩ := World.exists_goes_end exported.free slot hooks
  refine ⟨later, goes, ?_⟩
  rw [puts.there]
  exact exported.last _

/-- A body that has ended makes no step. -/
theorem goes_of_ended (exported : (world.module m).Exported names entries (entries.length + 1)) :
    world.Goes m .exhausted world := by
  have slot := exported.ended (Nat.lt_succ_self _)
  exact .exhausted exported.free (by rw [slot]; rfl)

theorem exists_steps {demand : Demand} {bound : Nat} (enough : bound ≤ entries.length + 1)
    (declared : ∀ entry ∈ entries, entry.1 ∈ declaredBy names)
    (awaits : ∀ (world : World σ) (count : Nat), (world.module m).Exported names entries count →
      count < bound → demand.awaited? world = some m)
    (exported : (world.module m).Exported names entries count) :
    ∃ later, demand.Steps m world later ∧
      (later.module m).Exported names entries (max count bound) := by
  generalize left : bound - count = more
  induction more generalizing world count with
  | zero => exact ⟨world, .refl world, by rwa [Nat.max_eq_left (by omega)]⟩
  | succ more ih =>
    have awaited := awaits world count exported (by omega)
    obtain ⟨middle, goes, next⟩ : ∃ middle, world.Goes m .stepped middle ∧
        (middle.module m).Exported names entries (count + 1) := by
      rcases Nat.lt_or_eq_of_le (show count ≤ entries.length by omega) with more | rfl
      · exact exported.exists_goes declared more
      · exact exported.exists_goes_end
    obtain ⟨later, steps, came⟩ := ih next (by omega)
    refine ⟨later, .step awaited goes steps, ?_⟩
    rwa [Nat.max_eq_right (by omega)] at came ⊢

theorem lacks_iff (exported : module.Exported names entries count) : module.lacks name = true ↔
    name ∈ declaredBy names ∧ name ∉ (entries.take count).map Prod.fst := by
  have declares : module.declares name = true ↔ name ∈ declaredBy names := by
    rw [Module.declares, exported.declared]
    rfl
  have missing : (module.peek name).isNone = true ↔ name ∉ (entries.take count).map Prod.fst := by
    rw [exported.peek, ← List.mem_reverse, ← List.map_reverse, Table.mem_map_fst_iff]
    simp
  simp [Module.lacks, Module.awaits, Module.pendingWildcards, exported.wildcards, missing, declares,
    and_comm]

/-- A name that is needed further on is awaited. -/
theorem lacks_of_lt (exported : module.Exported names entries count)
    (short : count < need names entries name) : module.lacks name = true := by
  unfold need at short
  split at short
  · next declared =>
    refine exported.lacks_iff.mpr ⟨declared, fun member => ?_⟩
    rw [List.map_take] at member
    have early := (List.mem_take_iff_idxOf_lt (List.mem_of_mem_take member)).mp member
    omega
  · omega

/-- A name that is exported somewhere has a value once the body has come as far as it is needed. -/
theorem exists_peek (exported : module.Exported names entries count)
    (declared : ∀ entry ∈ entries, entry.1 ∈ declaredBy names) (written : name ∈ entries.map Prod.fst)
    (far : need names entries name ≤ count) :
    ∃ value, module.peek name = some value := by
  obtain ⟨entry, member, rfl⟩ := List.mem_map.mp written
  have passes : (declaredBy names).contains entry.1 = true := declared entry member
  rw [need, if_pos passes] at far
  have early := (List.mem_take_iff_idxOf_lt written).mpr far
  rw [← List.map_take, ← List.mem_reverse, ← List.map_reverse, Table.mem_map_fst_iff] at early
  rw [exported.peek]
  exact Option.isSome_iff_exists.mp early

/-- A name that is awaited after all that it needs is never exported, and the body has ended. -/
theorem ended_of_lacks (exported : module.Exported names entries count) (lacks : module.lacks name)
    (unwritten : name ∉ entries.map Prod.fst) (far : need names entries name ≤ count) :
    count = entries.length + 1 := by
  have passes : (declaredBy names).contains name = true := (exported.lacks_iff.mp lacks).1
  rw [need, if_pos passes, List.idxOf_of_notMem unwritten, List.length_map] at far
  exact Nat.le_antisymm exported.bound far

end Module.Exported

/-- A read that is given its answer ends, and leaves the modules alone. -/
theorem Demand.exists_ends_deliver (how : Reading) (target : Target) (world : World σ)
    (result : Except Fault Value) (m : ModuleId) : ∃ outcome later,
      (deliver how target world result).1.Ends (deliver how target world result).2 outcome later ∧
        later.module m = world.module m := by
  obtain ⟨outcome, answers⟩ := deliver_eq_answer how target world result
  refine ⟨outcome, _, ?_, module_deliver how target world result⟩
  rw [answers]
  exact Control.ends_answer.mpr ⟨rfl, rfl⟩

namespace Module.Exported

/-- A read has the body come as far as the name needs, if it has not come as far before. It gives the
value that was exported last by then. -/
theorem exists_read (exported : (world.module m).Exported names entries count)
    (declared : ∀ entry ∈ entries, entry.1 ∈ declaredBy names) (how : Reading) (name : String) :
    ∃ outcome later, (Control.demand (.read how (.named m name))).Ends world outcome later ∧
      (later.module m).Exported names entries (max count (need names entries name)) ∧
      (name ∈ entries.map Prod.fst → ∃ value, outcome = .returned value ∧
        Table.findIn name (entries.take (max count (need names entries name))).reverse =
          some value) := by
  have remote : (Target.named m name).remote = .ok name := rfl
  have awaits (world : World σ) (count : Nat) (exported : (world.module m).Exported names entries count)
      (short : count < need names entries name) :
      (Demand.read how (.named m name)).awaited? world = some m :=
    (Demand.awaited?_of_remote how remote).trans (if_pos (exported.lacks_of_lt short))
  obtain ⟨middle, steps, came⟩ :=
    exported.exists_steps (need_le names entries name) declared awaits
  have far := Nat.le_max_right count (need names entries name)
  by_cases written : name ∈ entries.map Prod.fst
  · obtain ⟨value, settled⟩ := came.exists_peek declared written far
    have reads := Demand.ends_read_of_settled how remote settled
    exact ⟨_, middle, reads.of_reaches steps.reaches, came,
      fun _ => ⟨value, rfl, came.peek name ▸ settled⟩⟩
  -- The name never comes: the read ends where it does not wait any more, or with the body.
  · obtain ⟨result, halts⟩ : ∃ result, ∀ stack, Reaches
        ⟨.demand (.read how (.named m name)), stack, middle⟩
        (join stack (Demand.deliver how (.named m name) middle result)) := by
      rcases Demand.awaited?_read how (.named m name) middle with unawaited | awaited
      · exact ⟨_, Demand.reaches_of_unawaited unawaited⟩
      · have lacks := Demand.lacks_of_awaited remote awaited
        have atEnd := came.ended_of_lacks lacks written far
        rw [atEnd] at came
        exact ⟨_, Demand.reaches_of_goes awaited came.goes_of_ended⟩
    obtain ⟨outcome, later, ends, same⟩ :=
      Demand.exists_ends_deliver how (.named m name) middle result m
    refine ⟨outcome, later, ends.of_reaches fun stack => (steps.reaches stack).trans (halts stack),
      ?_, fun member => absurd member written⟩
    rwa [same]

/-- A finish has the body come to its end. -/
theorem exists_finish (exported : (world.module m).Exported names entries count)
    (declared : ∀ entry ∈ entries, entry.1 ∈ declaredBy names) :
    ∃ later, (Control.demand (.finish m)).Ends world .unit later ∧
      (later.module m).Exported names entries (entries.length + 1) := by
  obtain ⟨later, steps, came⟩ := exported.exists_steps (Nat.le_refl _) declared
    (fun _ _ _ _ => (rfl : (Demand.finish m).awaited? _ = some m))
  rw [Nat.max_eq_right exported.bound] at came
  have ends : (Control.answer .unit).Ends later .unit later := Control.ends_answer.mpr ⟨rfl, rfl⟩
  have halts := Demand.reaches_of_goes (rfl : (Demand.finish m).awaited? later = some m)
    came.goes_of_ended
  exact ⟨later, ends.of_reaches fun stack => (steps.reaches stack).trans (halts stack), came⟩

end Module.Exported

/-- How far the body has to come for reads of all the given names. -/
def furthest (names : List ExportName) (entries : List (String × Value)) (read : List String) : Nat :=
  (read.map (need names entries)).foldr max 0

theorem furthest_nil : furthest names entries [] = 0 := rfl

theorem Module.Exported.exists_performs (exported : (world.module m).Exported names entries count)
    (declared : ∀ entry ∈ entries, entry.1 ∈ declaredBy names) (reads : List (Reading × String)) :
    ∃ outcomes later, Performs world
        (reads.map fun read => (Code.read read.1 (.named m read.2)).program) outcomes later ∧
      (later.module m).Exported names entries (max count (furthest names entries (reads.map Prod.snd))) ∧
      ∀ i how name, reads[i]? = some (how, name) → name ∈ entries.map Prod.fst →
        ∃ value, outcomes[i]? = some (.returned value) ∧
          Table.findIn name (entries.take (max count
            (furthest names entries ((reads.take (i + 1)).map Prod.snd)))).reverse = some value := by
  induction reads generalizing world count with
  | nil =>
    refine ⟨[], world, .nil, ?_, fun i how name entry => ?_⟩
    · rwa [List.map_nil, furthest_nil, Nat.max_zero]
    · cases entry
  | cons read rest ih =>
    obtain ⟨outcome, middle, ends, came, gives⟩ := exported.exists_read declared read.1 read.2
    obtain ⟨outcomes, later, performs, far, others⟩ := ih came
    obtain ⟨limit, result⟩ := Control.ends_iff.mp (Control.ends_demand.mpr ends)
    have further (more : List String) : max count (furthest names entries (read.2 :: more)) =
        max (max count (need names entries read.2)) (furthest names entries more) :=
      (Nat.max_assoc ..).symm
    refine ⟨outcome :: outcomes, later, .cons result performs, ?_, fun i how name entry written => ?_⟩
    · rw [List.map_cons, further]
      exact far
    · cases i with
      | zero =>
        cases entry
        obtain ⟨value, rfl, found⟩ := gives written
        refine ⟨value, rfl, ?_⟩
        rw [List.take_succ_cons, List.map_cons, further, List.take_zero, List.map_nil, furthest_nil,
          Nat.max_zero]
        exact found
      | succ i =>
        obtain ⟨value, given, found⟩ := others i how name entry written
        refine ⟨value, given, ?_⟩
        rw [List.take_succ_cons, List.map_cons, further]
        exact found

/-- A module whose body is a list of exports of declared names, and has not begun. -/
theorem Module.exported_attach {config : Config} (bare : names.count .wildcard = 0) :
    ((fresh names config).attach (.ofStatements (exports entries)) : Module σ).Exported names entries
      0 :=
  ⟨rfl, rfl, Nat.zero_le _, rfl, bare, fun _ => rfl, fun _ => ⟨rfl, rfl⟩,
    fun late => absurd late (Nat.not_lt_zero _)⟩

/-- Reads of a module whose body is a list of exports have it make as many steps as the one of them that
needs most, in whatever order they are made. Each read of a name that is exported somewhere gives the
value that was exported last by then. A finish has the body make the other steps. -/
theorem reads_as_needed {config : Config}
    (fresh : world.module m = (Module.fresh names config).attach (.ofStatements (exports entries)))
    (bare : names.count .wildcard = 0)
    (declared : ∀ entry ∈ entries, entry.1 ∈ Module.declaredBy names)
    (reads : List (Reading × String)) :
    ∃ outcomes later, Performs world
        (reads.map fun read => (Code.read read.1 (.named m read.2)).program) outcomes later ∧
      (later.module m).steps = furthest names entries (reads.map Prod.snd) ∧
      (∀ i how name, reads[i]? = some (how, name) → name ∈ entries.map Prod.fst →
        ∃ value, outcomes[i]? = some (.returned value) ∧
          Table.findIn name (entries.take
            (furthest names entries ((reads.take (i + 1)).map Prod.snd))).reverse = some value) ∧
      ∃ last, (Control.run (Code.finish m).program).Ends later .unit last ∧
        (last.module m).steps = entries.length + 1 := by
  have exported : (world.module m).Exported names entries 0 := fresh ▸ Module.exported_attach bare
  obtain ⟨outcomes, later, performs, came, gives⟩ := exported.exists_performs declared reads
  simp only [Nat.zero_max] at came gives
  obtain ⟨last, ends, ended⟩ := came.exists_finish declared
  exact ⟨outcomes, later, performs, came.steps, gives, last, Control.ends_demand.mpr ends, ended.steps⟩

/-- A module exports one of its names twice, and another one never. -/
def hesitant : Program Unit :=
  Code.program do
    let m ← Code.create [.named "a", .named "b", .named "never"] .standard
    Code.executeStatements m Code.unit
      [fun m => Code.settle m "a" .null, fun m => Code.settle m "b" (.boolean false),
        fun m => Code.settle m "a" (.boolean true)]

def hesitantMade : Machine Unit := (Machine.start hesitant (.empty .standard ())).after 5

theorem reads_as_needed_of_hesitant :
    ∃ outcomes later, Performs hesitantMade.world
        [(Code.get 0 "b").program, (Code.resolve 0 "other").program, (Code.resolve 0 "a").program]
        outcomes later ∧
      (later.module 0).steps = 2 ∧ outcomes[0]? = some (.returned (.boolean false)) ∧
      outcomes[2]? = some (.returned .null) ∧
      ∃ last, (Control.run (Code.finish 0).program).Ends later .unit last ∧
        (last.module 0).steps = 4 := by
  have fresh : hesitantMade.world.module 0 =
      (Module.fresh [.named "a", .named "b", .named "never"] .standard).attach
        (.ofStatements (exports [("a", .null), ("b", .boolean false), ("a", .boolean true)])) := rfl
  obtain ⟨outcomes, later, performs, steps, gives, finishes⟩ := reads_as_needed fresh (by decide)
    (by decide) [(.get, "b"), (.resolve, "other"), (.resolve, "a")]
  obtain ⟨first, atFirst, found⟩ := gives 0 .get "b" rfl (by decide)
  obtain ⟨second, atSecond, found'⟩ := gives 2 .resolve "a" rfl (by decide)
  cases found
  cases found'
  exact ⟨outcomes, later, performs, steps, atFirst, atSecond, finishes⟩

end LiveBindings
