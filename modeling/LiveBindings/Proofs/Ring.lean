import LiveBindings.Proofs.Clauses
import LiveBindings.Proofs.Reentry
import Mathlib.Algebra.Group.Fin.Basic
import Mathlib.Algebra.GroupWithZero.Nat
import Mathlib.Data.Finset.Card
import Mathlib.Data.Fintype.Basic

namespace LiveBindings

open Machine

variable {σ : Type}

/-- Modules in a ring. Each one declares two names, and takes a value from the next one for the first
of them before it exports a value of its own as the second. -/
structure Ring (n : Nat) [NeZero n] where
  place : Fin n → ModuleId
  distinct : ∀ i j, place i = place j → i = j
  config : Fin n → Config
  value : Fin n → Value
  /-- How each module reads the next one, by itself or through a view. -/
  target : Fin n → Target
  source : ∀ i, (target i).source = place (i + 1)
  remote : ∀ i, (target i).remote = .ok "x"

namespace Ring

variable {n : Nat} [NeZero n] (ring : Ring n)

def draft (i : Fin n) : Draft where
  names := ["x", "seen"]
  config := ring.config i
  clauses := [⟨"seen", .read (ring.target i)⟩, ⟨"x", .constant (ring.value i)⟩]
  declared clause member := by
    simp only [List.mem_cons, List.not_mem_nil, or_false] at member
    rcases member with rfl | rfl
    · show "seen" ∈ Module.declaredBy [.named "x", .named "seen"]
      decide
    · show "x" ∈ Module.declaredBy [.named "x", .named "seen"]
      decide
  once := by
    show ["seen", "x"].Nodup
    decide

def entered (i : Fin n) : Module σ := (ring.draft i).module.resumed (ring.draft i).body

def exported (i : Fin n) (seen : Value) : Module σ := ((ring.entered i).bind "seen" seen).yield

def visited (i : Fin n) (seen : Value) : Module σ :=
  (((ring.exported i seen).resumed ((ring.draft i).body.after 1)).bind "x" (ring.value i)).yield

def finished (i : Fin n) (seen : Value) : Module σ :=
  ((ring.visited i seen).resumed ((ring.draft i).body.after 2)).complete.load

theorem lacks_module (i : Fin n) : ((ring.draft i).module : Module σ).lacks "x" = true := rfl

theorem lacks_exported (i : Fin n) (seen : Value) :
    (ring.exported i seen : Module σ).lacks "x" = true := rfl

theorem bindings_visited (i : Fin n) (seen : Value) : (ring.visited i seen : Module σ).bindings =
    (Table.empty.insert "seen" seen).insert "x" (ring.value i) := rfl

theorem peek_visited (i : Fin n) (seen : Value) :
    (ring.visited i seen : Module σ).peek "x" = some (ring.value i) := by
  rw [Module.peek, bindings_visited, Table.find?_insert_self]

theorem peek_visited_seen (i : Fin n) (seen : Value) :
    (ring.visited i seen : Module σ).peek "seen" = some seen := by
  rw [Module.peek, bindings_visited, Table.find?_insert_of_ne _ (by decide),
    Table.find?_insert_self]

section

variable {ring} {i : Fin n} {world middle later : World σ} {seen : Value} {target : Target}

/-- In its first step a module exports what the next one has answered. -/
theorem exists_goes_seen (fresh : world.module (ring.place i) = (ring.draft i).module)
    (asks : (Control.demand (.read .get (ring.target i))).Ends
      (world.begun (ring.place i) (ring.draft i).body) (.returned seen) middle)
    (made : ring.place i ∈ middle) (kept : middle.module (ring.place i) = ring.entered i) :
    ∃ later, world.Goes (ring.place i) .stepped later ∧
      middle.Puts (ring.place i) (ring.exported i seen) later := by
  have declared : "seen" ∈ (middle.module (ring.place i)).declared := by
    rw [kept]
    exact (ring.draft i).declared ⟨"seen", .read (ring.target i)⟩ List.mem_cons_self
  have goes := Draft.goes_clause (ring.draft i) 0 rfl (by rw [fresh]; rfl) (by rw [fresh]; rfl)
    (Draft.ends_read_clause asks declared)
  have puts := ((World.Puts.refl made).bound "seen" seen).update Module.yield
  rw [kept] at puts
  exact ⟨_, goes, puts⟩

/-- In its second step it exports a value of its own. -/
theorem exists_goes_value (there : world.module (ring.place i) = ring.exported i seen) :
    ∃ later, world.Goes (ring.place i) .stepped later ∧
      world.Puts (ring.place i) (ring.visited i seen) later := by
  have free : (world.module (ring.place i)).held = false := by rw [there]; rfl
  have begun := (World.Puts.refl (World.mem_of_free free)).begun ((ring.draft i).body.after 1)
  rw [there] at begun
  have declared : "x" ∈ ((world.begun (ring.place i) ((ring.draft i).body.after 1)).module
      (ring.place i)).declared := by
    rw [begun.there]
    exact (ring.draft i).declared ⟨"x", .constant (ring.value i)⟩
      (List.mem_cons_of_mem _ List.mem_cons_self)
  have goes := Draft.goes_clause (ring.draft i) 1 rfl free (by rw [there]; rfl)
    (Draft.ends_settle declared (ring.value i))
  exact ⟨_, goes, (begun.bound "x" (ring.value i)).update Module.yield⟩

theorem exists_ends_read (source : target.source = ring.place i) (remote : target.remote = .ok "x")
    (fresh : world.module (ring.place i) = (ring.draft i).module)
    (asks : (Control.demand (.read .get (ring.target i))).Ends
      (world.begun (ring.place i) (ring.draft i).body) (.returned seen) middle)
    (made : ring.place i ∈ middle) (kept : middle.module (ring.place i) = ring.entered i) :
    ∃ later, (Control.demand (.read .get target)).Ends world (.returned (ring.value i)) later ∧
      middle.Puts (ring.place i) (ring.visited i seen) later := by
  obtain ⟨between, first, exported⟩ := exists_goes_seen fresh asks made kept
  obtain ⟨later, second, visited⟩ := exists_goes_value exported.there
  -- The name is unsettled after the first step, so the same demand has the module make the second.
  have steps : (Demand.read .get target).Steps (ring.place i) world later := by
    refine .step ?_ first (.step ?_ second (.refl later))
    · rw [Demand.awaited?_of_remote .get remote, source, fresh, if_pos (ring.lacks_module i)]
    · rw [Demand.awaited?_of_remote .get remote, source, exported.there,
        if_pos (ring.lacks_exported i seen)]
  have settled := ring.peek_visited (σ := σ) i seen
  rw [← visited.there, ← source] at settled
  have unawaited : (Demand.read .get target).awaited? later = none := by
    rw [Demand.awaited?_of_remote .get remote, if_neg]
    simp [Module.lacks, settled]
  refine ⟨later, fun stack => (steps.reaches stack).trans ?_, exported.trans visited⟩
  have answered := Demand.reaches_of_unawaited unawaited stack
  rwa [Demand.reading, remote, Except.bind, Module.reading_of_peek settled] at answered

end

/-- Some modules of the ring are fresh, and the others are inside a step and have nothing to give. -/
structure Entered (ring : Ring n) (fresh : Finset (Fin n)) (world : World σ) : Prop where
  waiting : ∀ i ∈ fresh, world.module (ring.place i) = (ring.draft i).module
  inside : ∀ i ∉ fresh, (world.module (ring.place i)).held = true ∧
    (world.module (ring.place i)).peek "x" = none

/-- What a read of a module gives when some modules of the ring are fresh. -/
def answer (ring : Ring n) (fresh : Finset (Fin n)) (i : Fin n) : Value :=
  if i ∈ fresh then ring.value i else .undefined

/-- A read of one module has visited fresh modules, up to one that was inside a step. -/
structure Walks (ring : Ring n) (fresh : Finset (Fin n)) (start : Fin n) (walked : Finset (Fin n))
    (before after : World σ) : Prop where
  within : walked ⊆ fresh
  begins : start ∈ fresh → start ∈ walked
  goesOn : ∀ i ∈ walked, i + 1 ∈ fresh → i + 1 ∈ walked
  visited : ∀ i ∈ walked, after.module (ring.place i) =
    ring.visited i (ring.answer (fresh.erase start) (i + 1))
  apart : ∀ m, (∀ i ∈ walked, m ≠ ring.place i) → after.module m = before.module m

section

variable {ring} {fresh walked : Finset (Fin n)} {start : Fin n} {world middle later : World σ}
  {target : Target}

theorem Entered.begun (entered : ring.Entered fresh world)
    (begun : world.Puts (ring.place start) (ring.entered start) later) :
    ring.Entered (fresh.erase start) later := by
  have apart (i : Fin n) (differs : i ≠ start) :
      later.module (ring.place i) = world.module (ring.place i) :=
    begun.beside _ fun same => differs (ring.distinct _ _ same)
  constructor
  · intro i member
    obtain ⟨differs, member⟩ := Finset.mem_erase.mp member
    rw [apart i differs]
    exact entered.waiting i member
  · intro i outside
    by_cases same : i = start
    · subst i
      rw [begun.there]
      exact ⟨rfl, rfl⟩
    · rw [apart i same]
      exact entered.inside i fun member => outside (Finset.mem_erase.mpr ⟨same, member⟩)

theorem Entered.exists_walks_of_inside (entered : ring.Entered fresh world) (inside : start ∉ fresh)
    (source : target.source = ring.place start) (remote : target.remote = .ok "x") :
    ∃ later, (Control.demand (.read .get target)).Ends world
        (.returned (ring.answer fresh start)) later ∧ ring.Walks fresh start ∅ world later := by
  obtain ⟨held, missing⟩ := entered.inside start inside
  rw [← source] at held missing
  obtain ⟨later, ends, notes⟩ := Demand.ends_read_of_held .get remote held
  rw [missing] at ends
  obtain ⟨events, rfl⟩ := notes
  rw [answer, if_neg inside]
  exact ⟨_, ends, Finset.empty_subset _, fun member => absurd member inside, nofun, nofun,
    fun _ _ => rfl⟩

/-- A fresh module whose next one has answered is visited itself. -/
theorem Walks.visit (walks : ring.Walks (fresh.erase start) (start + 1) walked world middle)
    (member : start ∈ fresh) {before : World σ}
    (begun : before.Puts (ring.place start) (ring.entered start) world)
    (visits : middle.Puts (ring.place start)
      (ring.visited start (ring.answer (fresh.erase start) (start + 1))) later) :
    ring.Walks fresh start (insert start walked) before later where
  within := Finset.insert_subset member (walks.within.trans (Finset.erase_subset start fresh))
  begins _ := Finset.mem_insert_self ..
  goesOn i inside next := by
    -- The next one can be `start`, which is not fresh for the read in between.
    by_cases back : i + 1 = start
    · rw [back]
      exact Finset.mem_insert_self ..
    have fresh' := Finset.mem_erase.mpr ⟨back, next⟩
    rcases Finset.mem_insert.mp inside with rfl | inside
    · exact Finset.mem_insert_of_mem (walks.begins fresh')
    · exact Finset.mem_insert_of_mem (walks.goesOn i inside fresh')
  visited i inside := by
    by_cases same : i = start
    · rw [same, visits.there]
    · have inside := (Finset.mem_insert.mp inside).resolve_left same
      have apart : ring.place i ≠ ring.place start := fun equal => same (ring.distinct _ _ equal)
      have differs : i + 1 ≠ start + 1 := fun equal => same (add_right_cancel equal)
      rw [visits.beside _ apart, walks.visited i inside, answer, answer]
      simp only [Finset.mem_erase, ne_eq, differs, not_false_eq_true, true_and]
  apart m outside := by
    have differs := outside start (Finset.mem_insert_self ..)
    rw [visits.beside m differs,
      walks.apart m fun i inside => outside i (Finset.mem_insert_of_mem inside),
      begun.beside m differs]

/-- In a ring that is entered in part, a read goes through the fresh modules that it comes to, and
stops at a module that is inside a step. -/
theorem exists_walks (entered : ring.Entered fresh world)
    (source : target.source = ring.place start) (remote : target.remote = .ok "x") :
    ∃ walked later, (Control.demand (.read .get target)).Ends world
        (.returned (ring.answer fresh start)) later ∧ ring.Walks fresh start walked world later := by
  induction fresh using Finset.strongInduction generalizing start world target with
  | H fresh smaller =>
    by_cases member : start ∈ fresh
    · -- Once `start` is entered, the read that its first step makes is a case with one fresh module
      -- less, whether or not the next one is fresh.
      have here := entered.waiting start member
      have free : (world.module (ring.place start)).held = false := by rw [here]; rfl
      have begun := (World.Puts.refl (World.mem_of_free free)).begun (ring.draft start).body
      rw [here] at begun
      obtain ⟨walked, middle, asks, walks⟩ := smaller _ (Finset.erase_ssubset member)
        (entered.begun begun) (ring.source start) (ring.remote start)
      have kept : middle.module (ring.place start) = ring.entered start := by
        refine (walks.apart _ fun i inside same => ?_).trans begun.there
        have own := ring.distinct _ _ same
        exact Finset.notMem_erase start fresh (own ▸ walks.within inside)
      have made : ring.place start ∈ middle := World.mem_of_slot (by rw [kept]; exact nofun)
      obtain ⟨later, ends, visits⟩ := exists_ends_read source remote here asks made kept
      refine ⟨insert start walked, later, ?_, walks.visit member begun visits⟩
      rwa [answer, if_pos member]
    · obtain ⟨later, ends, walks⟩ := entered.exists_walks_of_inside member source remote
      exact ⟨∅, later, ends, walks⟩

/-- Going on from one module to the next one comes to all of them. -/
theorem mem_of_goesOn {visited : Finset (Fin n)} (begins : start ∈ visited)
    (goesOn : ∀ i ∈ visited, i + 1 ∈ visited) (i : Fin n) : i ∈ visited := by
  induction far : (i - start).val generalizing i with
  | zero =>
    have same : i - start = 0 := Fin.ext far
    rwa [sub_eq_zero.mp same]
  | succ distance ih =>
    have apart : i - start ≠ 0 := fun same => by simp [same] at far
    have before : (i - 1 - start).val = distance := by
      rw [sub_right_comm, Fin.val_sub_one_of_ne_zero apart]
      omega
    have next := goesOn _ (ih (i - 1) before)
    rwa [sub_add_cancel] at next

end

section Finish

variable {ring} {i : Fin n} {world : World σ} {seen : Value}

theorem exists_ends_finish (there : world.module (ring.place i) = ring.visited i seen) :
    ∃ later, (Control.demand (.finish (ring.place i))).Ends world .unit later ∧
      world.Puts (ring.place i) (ring.finished i seen) later := by
  have free : (world.module (ring.place i)).held = false := by rw [there]; rfl
  obtain ⟨later, goes, puts⟩ := Draft.exists_goes_end (ring.draft i) free (by rw [there]; rfl)
    (by rw [there]; rfl)
  rw [there] at puts
  change world.Puts (ring.place i) (ring.finished i seen) later at puts
  have still : later.Goes (ring.place i) .exhausted later :=
    .exhausted (by rw [puts.there]; rfl) (by rw [puts.there]; rfl)
  have steps : (Demand.finish (ring.place i)).Steps (ring.place i) world later :=
    .step rfl goes (.refl later)
  have halts : (Demand.finish (ring.place i)).Halts (ring.place i) later (.answer .unit, later) :=
    .still rfl (fun same : Progress.exhausted = .stepped => nomatch same) still
  exact ⟨later, steps.ends halts (Control.ends_done .unit later), puts⟩

theorem ends_finish (there : world.module (ring.place i) = ring.finished i seen) :
    (Control.demand (.finish (ring.place i))).Ends world .unit world := by
  have still : world.Goes (ring.place i) .exhausted world :=
    .exhausted (by rw [there]; rfl) (by rw [there]; rfl)
  exact fun stack => Demand.reaches_of_goes rfl still stack

/-- Modules that were visited are finished one after another, and finishing one of them again does
nothing. -/
theorem exists_performs_finish {sees : Fin n → Value} (order : List (Fin n))
    (stands : ∀ i, world.module (ring.place i) = ring.visited i (sees i) ∨
      world.module (ring.place i) = ring.finished i (sees i)) :
    ∃ last, Performs world (order.map fun i => (Code.finish (ring.place i)).program)
        (order.map fun _ => .unit) last ∧
      ∀ i, last.module (ring.place i) = ring.finished i (sees i) ∨
        i ∉ order ∧ last.module (ring.place i) = world.module (ring.place i) := by
  induction order generalizing world with
  | nil => exact ⟨world, .nil, fun i => .inr ⟨nofun, rfl⟩⟩
  | cons i rest ih =>
    obtain ⟨later, ends, puts⟩ : ∃ later,
        (Control.demand (.finish (ring.place i))).Ends world .unit later ∧
          world.Puts (ring.place i) (ring.finished i (sees i)) later := by
      rcases stands i with visited | finished
      · exact exists_ends_finish visited
      · have free : (world.module (ring.place i)).held = false := by rw [finished]; rfl
        exact ⟨world, ends_finish finished, World.mem_of_free free, finished, fun _ _ => rfl⟩
    have apart (j : Fin n) (differs : j ≠ i) :
        later.module (ring.place j) = world.module (ring.place j) :=
      puts.beside _ fun same => differs (ring.distinct _ _ same)
    obtain ⟨last, performs, finishes⟩ := @ih later fun j => by
      by_cases same : j = i
      · exact .inr (same ▸ puts.there)
      · rw [apart j same]
        exact stands j
    have first : (Control.run (Code.finish (ring.place i)).program).Ends world .unit later :=
      Control.ends_demand.mpr ends
    refine ⟨last, (Performs.cons_iff first).mpr ⟨_, rfl, performs⟩, fun j => ?_⟩
    rcases finishes j with finished | ⟨outside, same⟩
    · exact .inl finished
    · by_cases own : j = i
      · subst j
        exact .inl (same.trans puts.there)
      · exact .inr ⟨fun inside => (List.mem_cons.mp inside).elim own outside, same.trans (apart j own)⟩

end Finish

end Ring

/-- In a ring of fresh modules, a read of one module comes back to it through all the others, and
gives the module's own value. Each module has then seen the value of the next one, except for the one
just before the module that was read, which has seen undefined; and the modules can be finished in
any order, which binds nothing anew. -/
theorem import_ring_resolves {n : Nat} [NeZero n] (ring : Ring n) {world : World σ}
    (fresh : ∀ i, world.module (ring.place i) = (ring.draft i).module) (k : Fin n) :
    ∃ limit later,
      (Machine.start (Code.get (ring.place k) "x").program world).run? limit =
        some (.returned (ring.value k), later) ∧
      (∀ i, (later.module (ring.place i)).state = .suspended ∧
        (later.module (ring.place i)).steps = 2 ∧
        (later.module (ring.place i)).peek "x" = some (ring.value i) ∧
        (later.module (ring.place i)).peek "seen" =
          some (if i + 1 = k then .undefined else ring.value (i + 1))) ∧
      ∀ order : List (Fin n), ∃ last,
        Performs later (order.map fun i => (Code.finish (ring.place i)).program)
          (order.map fun _ => .unit) last ∧
        ∀ i, (last.module (ring.place i)).bindings = (later.module (ring.place i)).bindings ∧
          (i ∈ order → (last.module (ring.place i)).state = .completed ∧
            (last.module (ring.place i)).steps = 3) := by
  have entered : ring.Entered Finset.univ world :=
    ⟨fun i _ => fresh i, fun i outside => absurd (Finset.mem_univ i) outside⟩
  have source : (Target.named (ring.place k) "x").source = ring.place k := rfl
  obtain ⟨walked, later, ends, walks⟩ := Ring.exists_walks entered source rfl
  rw [Ring.answer, if_pos (Finset.mem_univ k)] at ends
  obtain ⟨limit, result⟩ := Control.ends_iff.mp (Control.ends_demand.mpr ends)
  have all := Ring.mem_of_goesOn (walks.begins (Finset.mem_univ k)) fun i inside =>
    walks.goesOn i inside (Finset.mem_univ _)
  have visited (i : Fin n) : later.module (ring.place i) =
      ring.visited i (if i + 1 = k then .undefined else ring.value (i + 1)) := by
    rw [walks.visited i (all i), Ring.answer]
    by_cases back : i + 1 = k
    · simp [back]
    · simp [back]
  refine ⟨limit, later, result, fun i => ?_, fun order => ?_⟩
  · rw [visited i]
    exact ⟨rfl, rfl, ring.peek_visited .., ring.peek_visited_seen ..⟩
  · obtain ⟨last, performs, finishes⟩ := Ring.exists_performs_finish order fun i => .inl (visited i)
    refine ⟨last, performs, fun i => ?_⟩
    rcases finishes i with finished | ⟨outside, same⟩
    · rw [finished, visited i]
      exact ⟨rfl, fun _ => ⟨rfl, rfl⟩⟩
    · exact ⟨congrArg Module.bindings same, fun inside => absurd inside outside⟩

/-- Three modules in a ring, one of which reads its neighbour through a view. -/
def triangle : Ring 3 where
  place i := i.val
  distinct _ _ same := Fin.ext same
  config _ := .standard
  value i := .ofNat i.val
  target i := if i = 1 then .viewed ⟨2, .ofList [("here", "x")]⟩ "here" else .named (i + 1).val "x"
  source := by decide
  remote i := by
    match i with
    | 0 => rfl
    | 1 => rfl
    | 2 => rfl

def triangleWorld : World Unit :=
  { World.empty .standard () with
    modules := [(triangle.draft 0).module, (triangle.draft 1).module, (triangle.draft 2).module] }

theorem import_ring_resolves_of_triangle :
    ∃ limit later,
      (Machine.start (Code.get 1 "x").program triangleWorld).run? limit =
        some (.returned (.ofNat 1), later) ∧
      (later.module 0).peek "seen" = some .undefined ∧
      (later.module 2).peek "seen" = some (.ofNat 0) ∧
      ∃ last, Performs later [(Code.finish 2).program, (Code.finish 0).program,
          (Code.finish 1).program] [.unit, .unit, .unit] last ∧
        (last.module 0).state = .completed ∧
        (last.module 0).bindings = (later.module 0).bindings := by
  have fresh (i : Fin 3) : triangleWorld.module (triangle.place i) = (triangle.draft i).module := by
    match i with
    | 0 => rfl
    | 1 => rfl
    | 2 => rfl
  obtain ⟨limit, later, result, visited, finish⟩ := import_ring_resolves triangle fresh 1
  obtain ⟨last, performs, finished⟩ := finish [2, 0, 1]
  obtain ⟨_, _, _, first⟩ := visited 0
  obtain ⟨_, _, _, third⟩ := visited 2
  obtain ⟨bindings, completes⟩ := finished 0
  exact ⟨limit, later, result, first, third, last, performs, (completes (by decide)).1, bindings⟩

end LiveBindings
