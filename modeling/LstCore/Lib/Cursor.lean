import Mathlib.Order.Basic
import Mathlib.Tactic.Basic

/-!
# A cursor that works through a list in pages

Each visit takes the next `size` of `n` places from the cursor, and one that reaches the end
puts the cursor back to the start. A visit that reaches the end leaves nothing out between
where the cursor started and the end (`seen_of_ends`).
-/

namespace LstCore.Lib.Cursor

variable {n size start k i : ℕ}

/-- Where visit `k` finds the cursor. -/
def position (n size start : ℕ) : ℕ → ℕ
  | 0 => start
  | k + 1 =>
    let at_k := position n size start k
    if n ≤ at_k + size then 0 else at_k + size

/-- Visit `k` reaches the end. -/
def Ends (n size start k : ℕ) : Prop := n ≤ position n size start k + size

instance : Decidable (Ends n size start k) := inferInstanceAs (Decidable (_ ≤ _))

/-- One of the first `k` visits takes place `i`. -/
def Seen (n size start k i : ℕ) : Prop :=
  ∃ j < k, position n size start j ≤ i ∧ i < position n size start j + size

instance : Decidable (Seen n size start k i) := inferInstanceAs (Decidable (∃ j < k, _))

theorem not_seen_zero : ¬ Seen n size start 0 i := by
  rintro ⟨j, hj, -⟩
  omega

theorem seen_succ : Seen n size start (k + 1) i ↔ Seen n size start k i ∨
    position n size start k ≤ i ∧ i < position n size start k + size := by
  constructor
  · rintro ⟨j, hj, hi⟩
    by_cases h : j = k
    · subst h
      exact .inr hi
    · exact .inl ⟨j, by omega, hi⟩
  · rintro (⟨j, hj, hi⟩ | hi)
    · exact ⟨j, by omega, hi⟩
    · exact ⟨k, by omega, hi⟩

/-- What comes after the start and has not been seen is still ahead of the cursor. -/
theorem seen_or_ahead (hs : start ≤ i) :
    ∀ k, Seen n size start k i ∨ position n size start k ≤ i := by
  intro k
  induction k with
  | zero => exact .inr hs
  | succ k ih =>
    rw [seen_succ]
    rcases ih with ih | ih
    · exact .inl (.inl ih)
    · by_cases hpage : i < position n size start k + size
      · exact .inl (.inr ⟨ih, hpage⟩)
      · -- the visit stops short of it
        right
        unfold position
        dsimp only
        split <;> omega

/-- **A visit that reaches the end** completes the pass from where the cursor started. -/
theorem seen_of_ends (h : Ends n size start k) (hs : start ≤ i) (hi : i < n) :
    Seen n size start (k + 1) i := by
  rw [seen_succ]
  rcases seen_or_ahead hs k with hk | hk
  · exact .inl hk
  · exact .inr ⟨hk, Nat.lt_of_lt_of_le hi h⟩

end LstCore.Lib.Cursor
