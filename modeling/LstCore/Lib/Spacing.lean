import Mathlib.Data.List.Pairwise
import Mathlib.Tactic.Ring

/-!
# Times that keep their distance

`Spaced p l`: the times of `l` are in order and at least `p` apart. Within any stretch
shorter than `u` there are at most `u / p` of them, rounded up (`Spaced.length_le`).
-/

namespace LstCore.Lib

/-- Times in order, at least `p` apart. -/
def Spaced (p : ℕ) (l : List ℕ) : Prop := l.Pairwise fun a b => a + p ≤ b

namespace Spaced

variable {p u a : ℕ} {l l' : List ℕ}

theorem nil : Spaced p [] := List.Pairwise.nil

theorem sublist (h : Spaced p l) (hs : l'.Sublist l) : Spaced p l' := List.Pairwise.sublist hs h

theorem concat (h : Spaced p l) (ha : ∀ b ∈ l, b + p ≤ a) : Spaced p (l ++ [a]) :=
  List.pairwise_append.2 ⟨h, List.pairwise_singleton _ _, by simpa using ha⟩

/-- The last of the times comes as many distances after the first as there are others. -/
theorem exists_late : ∀ {l : List ℕ} {a : ℕ}, Spaced p (a :: l) →
    ∃ b ∈ a :: l, a + l.length * p ≤ b := by
  intro l
  induction l with
  | nil => intro a _; exact ⟨a, List.mem_singleton_self a, by simp⟩
  | cons c l ih =>
    intro a h
    obtain ⟨ha, hc⟩ := List.pairwise_cons.1 h
    obtain ⟨b, hb, hle⟩ := ih hc
    refine ⟨b, List.mem_cons_of_mem a hb, ?_⟩
    have hac := ha c List.mem_cons_self
    have hlen : (c :: l).length * p = l.length * p + p := by rw [List.length_cons]; ring
    omega

/-- **How many times fit in a stretch shorter than `u`.** -/
theorem length_le (hp : 0 < p) (h : Spaced p l) (hu : ∀ a ∈ l, ∀ b ∈ l, b < a + u) :
    l.length ≤ (u + p - 1) / p := by
  cases l with
  | nil => exact Nat.zero_le _
  | cons a l =>
    obtain ⟨b, hb, hle⟩ := exists_late h
    have hlt := hu a List.mem_cons_self b hb
    rw [Nat.le_div_iff_mul_le hp, List.length_cons]
    have hmul : (l.length + 1) * p = l.length * p + p := by ring
    omega

end Spaced

end LstCore.Lib
