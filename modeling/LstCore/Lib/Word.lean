import Mathlib.Algebra.Order.Ring.Nat
import Mathlib.Tactic.Basic

/-!
# Unsigned words with checked and saturating arithmetic

`Word w` is an unsigned integer of `w` bits that carries its bound. Arithmetic
that can leave the range returns `none` there (`ofNat?`, `add?`, `sub?`); `satSub` stops at zero.
-/

namespace LstCore.Lib

/-- An unsigned integer of `w` bits. -/
@[ext] structure Word (w : ℕ) where
  val : ℕ
  isLt : val < 2 ^ w
deriving DecidableEq, Repr

namespace Word

variable {w : ℕ} {a b c d : Word w}

instance : Zero (Word w) := ⟨⟨0, Nat.two_pow_pos w⟩⟩

instance : Inhabited (Word w) := ⟨0⟩

instance : LE (Word w) := ⟨fun a b => a.val ≤ b.val⟩

instance : LT (Word w) := ⟨fun a b => a.val < b.val⟩

instance : DecidableLE (Word w) := fun a b => inferInstanceAs (Decidable (a.val ≤ b.val))

instance : DecidableLT (Word w) := fun a b => inferInstanceAs (Decidable (a.val < b.val))

/-- The word with value `n`, when `n` is in range. -/
def ofNat? (w n : ℕ) : Option (Word w) := if h : n < 2 ^ w then some ⟨n, h⟩ else none

def add? (a b : Word w) : Option (Word w) := ofNat? w (a.val + b.val)

def sub? (a b : Word w) : Option (Word w) :=
  if b.val ≤ a.val then some ⟨a.val - b.val, by have := a.isLt; omega⟩ else none

/-- Subtraction that stops at zero. -/
def satSub (a b : Word w) : Word w := ⟨a.val - b.val, by have := a.isLt; omega⟩

/-- The smaller of two words. -/
def min (a b : Word w) : Word w := if a ≤ b then a else b

@[simp] theorem val_zero : (0 : Word w).val = 0 := rfl

theorem le_def : a ≤ b ↔ a.val ≤ b.val := Iff.rfl

theorem lt_def : a < b ↔ a.val < b.val := Iff.rfl

theorem eq_zero_iff : a = 0 ↔ a.val = 0 := ⟨fun h => by rw [h]; rfl, fun h => Word.ext h⟩

@[simp] theorem val_satSub : (a.satSub b).val = a.val - b.val := rfl

@[simp] theorem val_min : (a.min b).val = Min.min a.val b.val := by
  unfold min
  by_cases h : a.val ≤ b.val
  · rw [if_pos (le_def.2 h)]; omega
  · rw [if_neg (fun h' => h (le_def.1 h'))]; omega

@[simp] theorem ofNat?_eq_some {n : ℕ} : ofNat? w n = some c ↔ c.val = n := by
  unfold ofNat?
  constructor
  · intro h
    split at h
    · simp at h; rw [← h]
    · simp at h
  · intro h
    have := c.isLt
    rw [dif_pos (by omega)]
    exact congrArg some (Word.ext h.symm)

@[simp] theorem add?_eq_some : a.add? b = some c ↔ c.val = a.val + b.val := ofNat?_eq_some

@[simp] theorem sub?_eq_some : a.sub? b = some c ↔ a.val = c.val + b.val := by
  unfold sub?
  constructor
  · intro h
    split at h
    · simp at h; rw [← h]; simp; omega
    · simp at h
  · intro h
    rw [if_pos (by omega)]
    exact congrArg some (Word.ext (by simp; omega))

/-- A sum below the bound is computed. -/
theorem exists_add? (h : a.val + b.val < 2 ^ w) : ∃ c, a.add? b = some c :=
  ⟨⟨_, h⟩, add?_eq_some.2 rfl⟩

end Word

end LstCore.Lib
