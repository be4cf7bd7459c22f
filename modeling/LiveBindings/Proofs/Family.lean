import LiveBindings.Operation
import LiveBindings.Proofs.Statements
import Mathlib.Data.List.Nodup

namespace LiveBindings

variable {σ : Type}

/-- Where a statement has the value from that it exports. -/
inductive Origin
  /-- The statement names the value. -/
  | constant (value : Value)
  /-- It reads leniently, of a module or through a view. -/
  | read (target : Target)
  /-- It re-exports a name of a module. -/
  | forward (source : ModuleId) (name : String)

def Origin.source? : Origin → Option ModuleId
  | .constant _ => none
  | .read target => some target.source
  | .forward source _ => some source

/-- A statement that exports one name. -/
structure Clause where
  name : String
  origin : Origin

/-- The code of a statement, on behalf of a module. -/
def Clause.code (clause : Clause) (m : ModuleId) : Code σ Value :=
  match clause.origin with
  | .constant value => Code.settle m clause.name value
  | .read target => do Code.settle m clause.name (← Code.read .get target)
  | .forward source name => Code.forward m source [(clause.name, name)]

/-- A module without wildcards whose statements export declared names, each name at most once. -/
structure Draft where
  names : List String
  config : Config
  clauses : List Clause
  declared : ∀ clause ∈ clauses, clause.name ∈ Module.declaredBy (names.map .named)
  once : (clauses.map Clause.name).Nodup

def Draft.body (draft : Draft) : Body σ :=
  .ofStatements (draft.clauses.map fun clause m => (clause.code m).program)

/-- The module of a draft, as its body is attached to it. -/
def Draft.module (draft : Draft) : Module σ :=
  (Module.fresh (draft.names.map .named) draft.config).attach draft.body

/-- Modules that take values only from modules of the family which have a lower rank. -/
structure Family where
  draft : ModuleId → Option Draft
  rank : ModuleId → Nat
  earlier : ∀ i drawn, draft i = some drawn → ∀ clause ∈ drawn.clauses, ∀ source,
    clause.origin.source? = some source → (draft source).isSome ∧ rank source < rank i

namespace Family

variable {family : Family} {i : ModuleId} {draft : Draft} {name : String} {clause : Clause}

def clause? (family : Family) (i : ModuleId) (name : String) : Option Clause :=
  (family.draft i).bind fun draft => draft.clauses.find? (·.name == name)

theorem clause?_eq_some (written : family.clause? i name = some clause) :
    ∃ draft, family.draft i = some draft ∧ clause ∈ draft.clauses ∧ clause.name = name := by
  obtain ⟨draft, drawn, found⟩ := Option.bind_eq_some_iff.mp written
  exact ⟨draft, drawn, List.mem_of_find?_eq_some found, by simpa using List.find?_some found⟩

theorem rank_lt (written : family.clause? i name = some clause) {source : ModuleId}
    (taken : clause.origin.source? = some source) : family.rank source < family.rank i := by
  obtain ⟨draft, drawn, member, _⟩ := clause?_eq_some written
  exact (family.earlier i draft drawn clause member source taken).2

/-- The value of a name: that of the statement which exports it, or undefined. -/
def den (family : Family) (i : ModuleId) (name : String) : Value :=
  match written : family.clause? i name with
  | none => .undefined
  | some clause =>
    match origin : clause.origin with
    | .constant value => value
    | .read target =>
      have lower : family.rank target.source < family.rank i :=
        family.rank_lt written (by rw [origin]; rfl)
      match target.remote with
      | .ok remote => family.den target.source remote
      | .error _ => .undefined
    | .forward source remote =>
      have lower : family.rank source < family.rank i :=
        family.rank_lt written (by rw [origin]; rfl)
      family.den source remote
termination_by family.rank i

/-- What a lenient read gives. A view has no value for a local name that it does not know. -/
def read (family : Family) (target : Target) : Value :=
  match target.remote with
  | .ok remote => family.den target.source remote
  | .error _ => .undefined

def value (family : Family) : Origin → Value
  | .constant value => value
  | .read target => family.read target
  | .forward source remote => family.den source remote

theorem den_of_clause? (written : family.clause? i name = some clause) :
    family.den i name = family.value clause.origin := by
  rw [den]
  split
  · next none => cases none.symm.trans written
  · next other found =>
    cases found.symm.trans written
    unfold value read
    split <;> next origin => simp only [origin]

theorem den_of_clause?_eq_none (unwritten : family.clause? i name = none) :
    family.den i name = .undefined := by
  rw [den]
  split
  · rfl
  · next other found => cases found.symm.trans unwritten

theorem clause?_of_mem (drawn : family.draft i = some draft) (member : clause ∈ draft.clauses) :
    family.clause? i clause.name = some clause := by
  simp only [clause?, drawn, Option.bind_some]
  have found : (draft.clauses.find? (·.name == clause.name)).isSome :=
    List.find?_isSome.mpr ⟨clause, member, beq_self_eq_true _⟩
  obtain ⟨other, same⟩ := Option.isSome_iff_exists.mp found
  have named : other.name = clause.name := by simpa using List.find?_some same
  rw [same, List.inj_on_of_nodup_map draft.once (List.mem_of_find?_eq_some same) member named]

theorem den_of_mem (drawn : family.draft i = some draft) (member : clause ∈ draft.clauses) :
    family.den i clause.name = family.value clause.origin :=
  den_of_clause? (clause?_of_mem drawn member)

theorem den_of_unwritten (drawn : family.draft i = some draft)
    (unwritten : ∀ clause ∈ draft.clauses, clause.name ≠ name) :
    family.den i name = .undefined := by
  refine den_of_clause?_eq_none ?_
  simp only [clause?, drawn, Option.bind_some, List.find?_eq_none]
  intro clause member same
  exact unwritten clause member (by simpa using same)

end Family

end LiveBindings
