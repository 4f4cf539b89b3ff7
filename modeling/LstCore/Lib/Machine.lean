import Mathlib.Data.List.Forall2
import LstCore.Lib.Alike

/-!
# Machines that refuse

A machine answers an input and moves on, or refuses it with a reason and stays where it was
(`attempt`). Its history is what it makes of a list of inputs (`attempts`), refusals included.

`attempts_alike` is unwinding: where related states answer related inputs alike, related histories
have the same answers and end in related states.
-/

namespace LstCore.Lib

variable {σ ι ο ε : Type} {next : ι → σ → Except ε (σ × ο)} {s t : σ}

/-- One input: an answer and a new state, or a reason and the old one. -/
def attempt (next : ι → σ → Except ε (σ × ο)) (s : σ) (i : ι) : σ × Except ε ο :=
  match next i s with
  | .ok (s', o) => (s', .ok o)
  | .error e => (s, .error e)

/-- Where a list of inputs leads, and the answer to each. -/
def attempts (next : ι → σ → Except ε (σ × ο)) : σ → List ι → σ × List (Except ε ο)
  | s, [] => (s, [])
  | s, i :: is =>
    let first := attempt next s i
    let rest := attempts next first.1 is
    (rest.1, first.2 :: rest.2)

theorem attempts_cons (s : σ) (i : ι) (is : List ι) : attempts next s (i :: is) =
    ((attempts next (attempt next s i).1 is).1,
      (attempt next s i).2 :: (attempts next (attempt next s i).1 is).2) := rfl

/-- One input of a related pair. -/
theorem attempt_alike {R : σ → σ → Prop} {i i' : ι} (hR : R s t)
    (h : Alike (fun r r' => R r.1 r'.1 ∧ r.2 = r'.2) (next i s) (next i' t)) :
    R (attempt next s i).1 (attempt next t i').1 ∧ (attempt next s i).2 = (attempt next t i').2 := by
  unfold attempt
  generalize next i s = x at h ⊢
  generalize next i' t = y at h ⊢
  cases h with
  | ok h =>
    obtain ⟨hst, ho⟩ := h
    exact ⟨hst, congrArg Except.ok ho⟩
  | error e => exact ⟨hR, rfl⟩

/-- **Unwinding.** -/
theorem attempts_alike {R : σ → σ → Prop} {M : ι → ι → Prop}
    (hstep : ∀ s t i i', R s t → M i i' →
      Alike (fun r r' => R r.1 r'.1 ∧ r.2 = r'.2) (next i s) (next i' t))
    {is is' : List ι} (hM : List.Forall₂ M is is') : ∀ {s t : σ}, R s t →
    R (attempts next s is).1 (attempts next t is').1 ∧
      (attempts next s is).2 = (attempts next t is').2 := by
  induction hM with
  | nil => exact fun hR => ⟨hR, rfl⟩
  | cons hi _ ih =>
    intro s t hR
    obtain ⟨hfirst, ho⟩ := attempt_alike hR (hstep s t _ _ hR hi)
    obtain ⟨hrest, hos⟩ := ih hfirst
    rw [attempts_cons, attempts_cons]
    exact ⟨hrest, by rw [ho, hos]⟩

end LstCore.Lib
