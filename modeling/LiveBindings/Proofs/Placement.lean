import LiveBindings.Proofs.Renaming
import Mathlib.Algebra.Group.Nat.Defs
import Mathlib.Algebra.Group.Pi.Basic

namespace LiveBindings

variable {σ : Type}

/-- The third list has the elements of the two others, those of each in their order. -/
inductive Interleaves {α : Type} : List α → List α → List α → Prop
  | nil : Interleaves [] [] []
  | left {a one other all} : Interleaves one other all → Interleaves (a :: one) other (a :: all)
  | right {a one other all} : Interleaves one other all → Interleaves one (a :: other) (a :: all)

/-- A program that was run from outside, how it ended and how many of each kind it made. -/
structure Performance (σ : Type) where
  program : Program σ
  outcome : Outcome
  made : Kind → Nat

/-- How many of each kind were made in all. -/
def madeBy : List (Performance σ) → Kind → Nat
  | [] => fun _ => 0
  | performance :: rest => performance.made + madeBy rest

/-- Where a number goes when two blocks of numbers, one right after the other, change places. -/
def exchanged (start one other k : Nat) : Nat :=
  if k < start then k
  else if k < start + one then k + other
  else if k < start + one + other then k - one
  else k

theorem exchanged_exchanged (start one other k : Nat) :
    exchanged start other one (exchanged start one other k) = k := by
  unfold exchanged
  split_ifs <;> omega

/-- Two blocks of numbers, one right after the other, change places. -/
def exchange (start one other : Nat) : Equiv.Perm Nat where
  toFun := exchanged start one other
  invFun := exchanged start other one
  left_inv := exchanged_exchanged start one other
  right_inv := exchanged_exchanged start other one

section Exchange

variable {start one other i : Nat}

theorem exchange_first (bound : i < one) :
    exchange start one other (start + i) = start + other + i := by
  simp only [exchange, Equiv.coe_fn_mk, exchanged]
  split_ifs <;> omega

theorem exchange_second (bound : i < other) : exchange start one other (start + one + i) = start + i := by
  simp only [exchange, Equiv.coe_fn_mk, exchanged]
  split_ifs <;> omega

theorem exchange_of_le (bound : start + one + other ≤ i) : exchange start one other i = i := by
  simp only [exchange, Equiv.coe_fn_mk, exchanged]
  split_ifs <;> omega

theorem exchange_of_lt (bound : i < start) : exchange start one other i = i := if_pos bound

end Exchange

/-- The numbers that the performances of two groups get when those of both are made in another order. What
ours make is numbered from one number on when each group goes on alone, what theirs make from another one
on, and what all make from a third one on when they are mixed. -/
inductive Placed (π : Renaming) : (Kind → Nat) → (Kind → Nat) → (Kind → Nat) →
    List (Performance σ) → List (Performance σ) → List (Performance σ) → Prop
  | nil {our their here} : Placed π our their here [] [] []
  | left {our their here performance ours theirs all} :
      (∀ kind, ∀ i < performance.made kind, π kind (our kind + i) = here kind + i) →
      Placed π (our + performance.made) their (here + performance.made) ours theirs all →
      Placed π our their here (performance :: ours) theirs (performance :: all)
  | right {our their here performance ours theirs all} :
      (∀ kind, ∀ i < performance.made kind, π kind (their kind + i) = here kind + i) →
      Placed π our (their + performance.made) (here + performance.made) ours theirs all →
      Placed π our their here ours (performance :: theirs) (performance :: all)

variable {ours theirs all : List (Performance σ)} {our their our' their' here : Kind → Nat}

/-- Only where the two groups' numbers go matters, not from where. -/
theorem Placed.congr {π ρ : Renaming} (placed : Placed ρ our' their' here ours theirs all)
    (left : ∀ kind, ∀ i < madeBy ours kind, π kind (our kind + i) = ρ kind (our' kind + i))
    (right : ∀ kind, ∀ i < madeBy theirs kind, π kind (their kind + i) = ρ kind (their' kind + i)) :
    Placed π our their here ours theirs all := by
  induction placed generalizing our their with
  | nil => exact .nil
  | @left _ _ _ performance ours _ _ number _ ih =>
    have goes (kind : Kind) (i : Nat) (bound : i < madeBy ours kind) :=
      left kind (performance.made kind + i) (Nat.add_lt_add_left bound _)
    simp only [← Nat.add_assoc] at goes
    refine .left (fun kind i bound => (left kind i ?_).trans (number kind i bound)) (ih goes right)
    exact Nat.lt_add_right _ bound
  | @right _ _ _ performance _ theirs _ number _ ih =>
    have goes (kind : Kind) (i : Nat) (bound : i < madeBy theirs kind) :=
      right kind (performance.made kind + i) (Nat.add_lt_add_left bound _)
    simp only [← Nat.add_assoc] at goes
    refine .right (fun kind i bound => (right kind i ?_).trans (number kind i bound)) (ih left goes)
    exact Nat.lt_add_right _ bound

/-- There are such numbers for every interleaving. Each performance of the second group changes places with
all that the first group has still to make. -/
theorem Interleaves.exists_placed (interleaves : Interleaves ours theirs all) (start : Kind → Nat) :
    ∃ π : Renaming,
      (∀ kind k, π kind k ≠ k →
        start kind ≤ k ∧ k < start kind + madeBy ours kind + madeBy theirs kind) ∧
      Placed π start (start + madeBy ours) start ours theirs all := by
  induction interleaves generalizing start with
  | nil => exact ⟨1, fun kind k moved => absurd rfl moved, .nil⟩
  | @left performance ours theirs all _ ih =>
    obtain ⟨π, moves, placed⟩ := ih (start + performance.made)
    rw [add_assoc] at placed
    refine ⟨π, fun kind k moved => ?_, .left (fun kind i bound => ?_) placed⟩
    · have limits := moves kind k moved
      simp only [madeBy, Pi.add_apply] at limits ⊢
      omega
    · refine by_contra fun moved => ?_
      have limits := moves kind _ moved
      simp only [Pi.add_apply] at limits
      omega
  | @right performance ours theirs all _ ih =>
    obtain ⟨ρ, moves, placed⟩ := ih (start + performance.made)
    have fixed (kind : Kind) {k : Nat} (before : k < start kind + performance.made kind) : ρ kind k = k :=
      by_contra fun moved => Nat.not_le_of_lt before (moves kind k moved).1
    refine ⟨fun kind => ρ kind * exchange (start kind) (madeBy ours kind) (performance.made kind),
      fun kind k moved => ?_, .right (fun kind i bound => ?_) (placed.congr ?_ ?_)⟩
    · refine by_contra fun outside => moved ?_
      simp only [madeBy, Pi.add_apply] at outside
      have still : exchange (start kind) (madeBy ours kind) (performance.made kind) k = k := by
        by_cases early : k < start kind
        · exact exchange_of_lt early
        · exact exchange_of_le (by omega)
      rw [Equiv.Perm.mul_apply, still]
      refine by_contra fun moved => ?_
      have limits := moves kind k moved
      simp only [Pi.add_apply] at limits
      omega
    · rw [Equiv.Perm.mul_apply, Pi.add_apply, exchange_second bound]
      exact fixed kind (Nat.add_lt_add_left bound _)
    · intro kind i bound
      rw [Equiv.Perm.mul_apply, exchange_first bound, Pi.add_apply]
    · intro kind i _
      simp only [Equiv.Perm.mul_apply, Pi.add_apply]
      rw [exchange_of_le (Nat.le_add_right _ _), Nat.add_right_comm (start kind)]

end LiveBindings
