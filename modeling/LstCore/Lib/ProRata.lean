import Mathlib.Algebra.BigOperators.Group.List.Basic
import Mathlib.Algebra.BigOperators.Ring.List
import Mathlib.Algebra.Order.Ring.Nat

/-!
# Pro-rata shares of a pot

A pot promised `o` and received `r`. A part `c` of the promise is worth
`share c r o`: all of it when the pot is whole, otherwise `c * r / o` rounded
down. The parts of a promise are together worth at most what was received
(`sum_share_le`), and exactly that when no part loses anything to the rounding
(`sum_share_eq_iff`).
-/

namespace LstCore.Lib

/-- What the part `c` of a promise `o` is worth when `r` was received. -/
def share (c r o : ℕ) : ℕ := if r = o then c else if o = 0 then 0 else c * r / o

variable {c r o : ℕ}

@[simp] theorem share_zero : share 0 r o = 0 := by simp [share]

/-- In a whole pot every part is worth itself. -/
@[simp] theorem share_self : share c o o = c := if_pos rfl

/-- No part is worth more than it was promised. -/
theorem share_le (h : r ≤ o) : share c r o ≤ c := by
  unfold share
  split
  · exact Nat.le_refl c
  · split
    · exact Nat.zero_le c
    · exact Nat.div_le_of_le_mul (by rw [Nat.mul_comm]; exact Nat.mul_le_mul_right c h)

/-- Rounding down is superadditive. -/
theorem sum_div_le {α : Type*} (f : α → ℕ) (r o : ℕ) :
    ∀ l : List α, (l.map fun x => f x * r / o).sum ≤ (l.map f).sum * r / o := by
  intro l
  induction l with
  | nil => simp
  | cons x l ih =>
    simp only [List.map_cons, List.sum_cons]
    calc f x * r / o + (l.map fun x => f x * r / o).sum
        ≤ f x * r / o + (l.map f).sum * r / o := Nat.add_le_add_left ih _
      _ ≤ (f x * r + (l.map f).sum * r) / o := Nat.div_add_div_le_add_div
      _ = (f x + (l.map f).sum) * r / o := by rw [Nat.add_mul]

/-- Rounding down loses less than one on each part. -/
theorem lt_sum_div {α : Type*} (f : α → ℕ) (r : ℕ) {o : ℕ} (ho : 0 < o) : ∀ {l : List α}, l ≠ [] →
    r * (l.map f).sum < o * ((l.map fun x => r * f x / o).sum + l.length) := by
  have hone : ∀ x, r * f x < o * (r * f x / o + 1) := fun x => Nat.lt_mul_div_succ _ ho
  intro l
  induction l with
  | nil => exact fun h => absurd rfl h
  | cons x l ih =>
    intro _
    have hx := hone x
    simp only [List.map_cons, List.sum_cons, List.length_cons, Nat.mul_add] at hx ⊢
    rcases eq_or_ne l [] with rfl | hne
    · simpa using hx
    · have := ih hne
      rw [Nat.mul_add] at this
      omega

/-- **The parts of a promise are worth at most what was received.** -/
theorem sum_share_le {α : Type*} (f : α → ℕ) (l : List α) (ho : (l.map f).sum ≤ o) :
    (l.map fun x => share (f x) r o).sum ≤ r := by
  unfold share
  split
  · rename_i h
    rw [h]; exact ho
  · split
    · simp
    · rename_i hne
      calc (l.map fun x => f x * r / o).sum ≤ (l.map f).sum * r / o := sum_div_le f r o l
        _ ≤ o * r / o := Nat.div_le_div_right (Nat.mul_le_mul_right r ho)
        _ = r := Nat.mul_div_cancel_left r (by omega)

theorem share_eq (ho : o ≠ 0) : share c r o = c * r / o := by
  unfold share
  split
  · rename_i h
    rw [h, Nat.mul_div_cancel _ (by omega)]
  · rfl

/-- Rounding down loses nothing exactly when every number is a multiple. -/
theorem sum_div_mul_eq_iff {α : Type*} (f : α → ℕ) (o : ℕ) : ∀ l : List α,
    (l.map fun x => f x / o).sum * o = (l.map f).sum ↔ ∀ x ∈ l, o ∣ f x := by
  have hle : ∀ l : List α, (l.map fun x => f x / o).sum * o ≤ (l.map f).sum := by
    intro l
    induction l with
    | nil => simp
    | cons x l ih =>
      have := Nat.div_mul_le_self (f x) o
      simp only [List.map_cons, List.sum_cons, Nat.add_mul]
      omega
  intro l
  induction l with
  | nil => simp
  | cons x l ih =>
    have hx := Nat.div_mul_le_self (f x) o
    have hl := hle l
    rw [List.forall_mem_cons, ← ih, Nat.dvd_iff_div_mul_eq]
    simp only [List.map_cons, List.sum_cons, Nat.add_mul]
    omega

/-- **The parts of a whole promise are worth exactly what was received** when each of them
loses nothing to the rounding. -/
theorem sum_share_eq_iff {α : Type*} (f : α → ℕ) (l : List α) (ho : o ≠ 0) (hs : (l.map f).sum = o) :
    (l.map fun x => share (f x) r o).sum = r ↔ ∀ x ∈ l, o ∣ f x * r := by
  have hsum : (l.map fun x => f x * r).sum = r * o := by
    rw [List.sum_map_mul_right, hs, Nat.mul_comm]
  simp only [share_eq ho]
  rw [← sum_div_mul_eq_iff (fun x => f x * r) o l, hsum, Nat.mul_left_inj ho]

end LstCore.Lib
