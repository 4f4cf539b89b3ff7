import Mathlib.Algebra.BigOperators.Group.List.Basic
import Mathlib.Data.List.Forall2
import Mathlib.Algebra.Order.Ring.Nat

/-!
# Filling places from one budget, in order

`pour b cs` fills the places `cs` one after another from the budget `b`: each
takes what it wants or what is left. Together they take all of the budget or
fill completely (`sum_pour`); they all fill exactly when the budget covers them
(`pour_eq_self`); and a given outcome is characterised place by place
(`pour_eq_iff`).
-/

namespace LstCore.Lib

/-- Fill the places in order from the budget. -/
def pour : ℕ → List ℕ → List ℕ
  | _, [] => []
  | b, c :: cs => min b c :: pour (b - min b c) cs

/-- Place by place, `rs` is what the places `cs` take from a budget that covers `rs`:
each is filled, or it takes exactly what is left. -/
def Exact : ℕ → List ℕ → List ℕ → Prop
  | b, c :: cs, r :: rs => (r = c ∨ r = b) ∧ Exact (b - r) cs rs
  | _, [], [] => True
  | _, _, _ => False

instance Exact.decidable : ∀ b cs rs, Decidable (Exact b cs rs)
  | _, [], [] => inferInstanceAs (Decidable True)
  | _, [], _ :: _ => inferInstanceAs (Decidable False)
  | _, _ :: _, [] => inferInstanceAs (Decidable False)
  | b, c :: cs, r :: rs =>
    have := Exact.decidable (b - r) cs rs
    inferInstanceAs (Decidable ((r = c ∨ r = b) ∧ Exact (b - r) cs rs))

/-- **What is taken**: the budget, or everything that is wanted. -/
theorem sum_pour : ∀ (cs : List ℕ) (b : ℕ), (pour b cs).sum = min b cs.sum := by
  intro cs
  induction cs with
  | nil => intro b; simp [pour]
  | cons c cs ih =>
    intro b
    simp only [pour, List.sum_cons, ih]
    omega

/-- No place takes more than it wants. -/
theorem pour_le : ∀ (cs : List ℕ) (b : ℕ), List.Forall₂ (· ≤ ·) (pour b cs) cs := by
  intro cs
  induction cs with
  | nil => intro b; exact .nil
  | cons c cs ih => intro b; exact .cons (Nat.min_le_right _ _) (ih _)

/-- **All places fill exactly when the budget covers them.** -/
theorem pour_eq_self : ∀ (cs : List ℕ) (b : ℕ), pour b cs = cs ↔ cs.sum ≤ b := by
  intro cs
  induction cs with
  | nil => intro b; simp [pour]
  | cons c cs ih =>
    intro b
    simp only [pour, List.cons.injEq, ih, List.sum_cons]
    omega

/-- **An outcome, place by place.** With a budget that covers `rs`, the places take
exactly `rs` when each is filled or takes what is left. -/
theorem pour_eq_iff : ∀ (cs rs : List ℕ) (b : ℕ), List.Forall₂ (· ≤ ·) rs cs → rs.sum ≤ b →
    (pour b cs = rs ↔ Exact b cs rs) := by
  intro cs
  induction cs with
  | nil => intro rs b hle _; cases hle; simp [pour, Exact]
  | cons c cs ih =>
    intro rs b hle hsum
    cases hle with
    | cons hrc hle =>
      rename_i r rs
      rw [List.sum_cons] at hsum
      simp only [pour, Exact, List.cons.injEq]
      constructor
      · rintro ⟨hr, hrs⟩
        rw [hr] at hrs
        exact ⟨by omega, (ih rs _ hle (by omega)).1 hrs⟩
      · rintro ⟨hr, hrs⟩
        have hm : min b c = r := by omega
        rw [hm]
        exact ⟨rfl, (ih rs _ hle (by omega)).2 hrs⟩

end LstCore.Lib
