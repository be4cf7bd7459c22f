import LiveBindings.Proofs.Driving

namespace LiveBindings

open Machine

variable {σ : Type}

/-- What is asked of a family from outside. -/
inductive Inquiry
  /-- A lenient read, of a module or through a view. -/
  | get (target : Target)
  /-- A module is finished. -/
  | finish (module : ModuleId)

namespace Inquiry

def module : Inquiry → ModuleId
  | .get target => target.source
  | .finish m => m

def program : Inquiry → Program σ
  | .get target => (Code.read .get target).program
  | .finish m => (Code.finish m).program

end Inquiry

/-- Inquiries that are made one after another, each in the world that the one before it left, and
how they end. -/
inductive Answers : World σ → List Inquiry → List Outcome → Prop
  | nil {world} : Answers world [] []
  | cons {world later inquiry rest outcome outcomes limit} :
      (Machine.start (Inquiry.program inquiry) world).run? limit = some (outcome, later) →
      Answers later rest outcomes → Answers world (inquiry :: rest) (outcome :: outcomes)

namespace Family

variable {world : World σ}

/-- The answer to an inquiry: the value of the name that is read, and nothing for a finish. -/
def answer (family : Family) : Inquiry → Value
  | .get target => family.read target
  | .finish _ => .undefined

theorem reaches_answer {family : Family} (sound : ∀ rank, family.Sound rank world)
    {inquiry : Inquiry} (inside : (family.draft inquiry.module).isSome) :
    ∃ later, Reaches (.start inquiry.program world)
        ⟨.answer (.returned (family.answer inquiry)), [], later⟩ ∧
      ∀ rank, family.Sound rank later := by
  cases inquiry with
  | get target =>
    obtain ⟨later, reach, advances⟩ := (family.drives (family.rank target.source + 1)).read
      ⟨inside, Nat.lt_succ_self _⟩ (sound _) [.caller .done]
    exact ⟨later, .step (reach.then rfl), advances.sound_all sound⟩
  | finish m =>
    obtain ⟨later, reach, advances⟩ := (family.drives (family.rank m + 1)).finish
      ⟨inside, Nat.lt_succ_self _⟩ (sound _) [.caller .done]
    exact ⟨later, .step (reach.then rfl), advances.sound_all sound⟩

end Family

/-- Lenient reads of an acyclic family give the values that the family defines by recursion on the
rank, whichever inquiries were made before: however the inquiries are ordered, each one ends by
returning its answer. -/
theorem reads_of_family (family : Family) {world : World σ}
    (fresh : ∀ i draft, family.draft i = some draft → world.module i = draft.module)
    (inquiries : List Inquiry)
    (inside : ∀ inquiry ∈ inquiries, (family.draft inquiry.module).isSome) (outcomes : List Outcome) :
    Answers world inquiries outcomes ↔
      outcomes = inquiries.map fun inquiry => .returned (family.answer inquiry) := by
  have sound (rank : Nat) : family.Sound rank world := fun i draft drawn _ =>
    ⟨0, by rw [fresh i draft drawn]; exact Family.stands_module draft⟩
  clear fresh
  -- Fresh modules are not kept by an inquiry, but standing between statements is.
  induction inquiries generalizing world outcomes with
  | nil =>
    constructor
    · rintro ⟨⟩
      rfl
    · rintro rfl
      exact .nil
  | cons inquiry rest ih =>
    obtain ⟨later, reach, sound⟩ := Family.reaches_answer sound (inside inquiry List.mem_cons_self)
    have ih := @ih later fun other member => inside other (List.mem_cons_of_mem _ member)
    constructor
    · rintro (_ | ⟨result, answers⟩)
      have same := reach.unique (outcome?_answer ..) (reaches_of_run? result) (outcome?_answer ..)
      cases same
      rw [(ih _ sound).mp answers]
      rfl
    · rintro rfl
      obtain ⟨limit, result⟩ := reach.run?
      exact .cons result ((ih _ sound).mpr rfl)

/-- The drafts of a module that reads from two others, of one that re-exports and of one that names
a value. -/
def chainDraft : ModuleId → Option Draft
  | 0 => some ⟨["d", "e"], .standard, [⟨"d", .read (.viewed ⟨1, .ofList [("x", "c")]⟩ "x")⟩,
      ⟨"e", .read (.named 2 "b")⟩], by decide, by decide⟩
  | 1 => some ⟨["c"], .standard, [⟨"c", .forward 2 "a"⟩], by decide, by decide⟩
  | 2 => some ⟨["a", "b"], .standard, [⟨"a", .constant .null⟩], by decide, by decide⟩
  | _ => none

def chain : Family where
  draft := chainDraft
  rank m := 2 - m
  earlier := by
    intro i drawn here clause member source taken
    match i, here with
    | 0, rfl =>
      rcases List.mem_cons.mp member with rfl | member
      · cases taken
        decide
      · cases List.mem_singleton.mp member
        cases taken
        decide
    | 1, rfl =>
      cases List.mem_singleton.mp member
      cases taken
      decide
    | 2, rfl =>
      cases List.mem_singleton.mp member
      cases taken

def chainWorld : World Unit :=
  { World.empty .standard () with
    modules := [0, 1, 2].filterMap fun m => (chainDraft m).map Draft.module }

theorem reads_of_chain :
    Answers chainWorld [.get (.named 0 "e"), .get (.named 0 "d"), .finish 1, .get (.named 2 "a")]
      [.returned .undefined, .returned .null, .returned .undefined, .returned .null] := by
  have fresh : ∀ i draft, chain.draft i = some draft → chainWorld.module i = draft.module := by
    intro i draft here
    match i, here with
    | 0, rfl => rfl
    | 1, rfl => rfl
    | 2, rfl => rfl
  have written (i : ModuleId) (name : String) (origin : Origin)
      (stated : chain.clause? i name = some ⟨name, origin⟩) : chain.den i name = chain.value origin :=
    Family.den_of_clause? stated
  have constant : chain.den 2 "a" = .null := written 2 "a" (.constant .null) rfl
  have forwarded : chain.den 1 "c" = .null := (written 1 "c" (.forward 2 "a") rfl).trans constant
  have viewed : chain.den 0 "d" = .null := (written 0 "d" (.read _) rfl).trans forwarded
  have unwritten : chain.den 2 "b" = .undefined := Family.den_of_clause?_eq_none rfl
  have read : chain.den 0 "e" = .undefined := (written 0 "e" (.read _) rfl).trans unwritten
  refine (reads_of_family chain fresh _ (by decide) _).mpr ?_
  simp only [List.map_cons, List.map_nil, Family.answer, Family.read, Target.remote, Target.source,
    constant, viewed, read]

end LiveBindings
