import LstCore.Lib.Except

/-!
# Two runs of one program

Two computations are alike when they fail with the same error, or succeed with related results.
The rules follow the program: two computations that are the same (`Alike.refl`), one after the
other (`Alike.bind`), after a common one (`Alike.after`), turn by turn (`Alike.foldlM`), under one
condition (`Alike.ite`).
-/

namespace LstCore.Lib

universe u v

variable {ε : Type u} {α α' β β' γ : Type v} {R : α → α' → Prop} {S : β → β' → Prop}

/-- They fail with the same error, or succeed with related results. -/
inductive Alike (R : α → α' → Prop) : Except ε α → Except ε α' → Prop
  | ok {a : α} {a' : α'} (h : R a a') : Alike R (.ok a) (.ok a')
  | error (e : ε) : Alike R (.error e) (.error e)

namespace Alike

theorem refl (x : Except ε α) : Alike Eq x x := by
  cases x with
  | error e => exact .error e
  | ok a => exact .ok rfl

theorem pure {a : α} {a' : α'} (h : R a a') :
    Alike R (Pure.pure a : Except ε α) (Pure.pure a' : Except ε α') := .ok h

/-- What is alike to a failure is that failure. -/
theorem of_error {e : ε} {y : Except ε α'} (h : Alike R (.error e) y) : y = .error e := by
  cases h
  rfl

/-- What is alike to a success is a related success. -/
theorem of_ok {a : α} {y : Except ε α'} (h : Alike R (.ok a) y) : ∃ a', y = .ok a' ∧ R a a' := by
  cases h with
  | ok h => exact ⟨_, rfl, h⟩

theorem mono {R' : α → α' → Prop} {x : Except ε α} {y : Except ε α'} (h : Alike R x y)
    (hR : ∀ a a', R a a' → R' a a') : Alike R' x y := by
  cases h with
  | ok h => exact .ok (hR _ _ h)
  | error e => exact .error e

/-- The related results are the results. -/
theorem of_self {x : Except ε α} {y : Except ε α'} (h : Alike R x y) :
    Alike (fun a a' => R a a' ∧ x = .ok a ∧ y = .ok a') x y := by
  cases h with
  | ok h => exact .ok ⟨h, rfl, rfl⟩
  | error e => exact .error e

/-- **One after the other.** -/
theorem bind {x : Except ε α} {x' : Except ε α'} {f : α → Except ε β} {f' : α' → Except ε β'}
    (h : Alike R x x') (hf : ∀ a a', R a a' → Alike S (f a) (f' a')) :
    Alike S (x >>= f) (x' >>= f') := by
  cases h with
  | ok h => exact hf _ _ h
  | error e => exact .error e

/-- **After a common one.** -/
theorem after (x : Except ε γ) {f : γ → Except ε β} {f' : γ → Except ε β'}
    (hf : ∀ a, Alike S (f a) (f' a)) : Alike S (x >>= f) (x >>= f') :=
  (refl x).bind fun a _ h => h ▸ hf a

/-- After a common one, given that it succeeded. -/
theorem after_ok {x : Except ε γ} {f : γ → Except ε β} {f' : γ → Except ε β'}
    (hf : ∀ a, x = .ok a → Alike S (f a) (f' a)) : Alike S (x >>= f) (x >>= f') := by
  refine (refl x).of_self.bind ?_
  rintro a _ ⟨rfl, ha, -⟩
  exact hf a ha

/-- **Turn by turn.** -/
theorem foldlM {f : α → γ → Except ε α} {f' : α' → γ → Except ε α'}
    (hf : ∀ a a' c, R a a' → Alike R (f a c) (f' a' c)) : ∀ (l : List γ) {a : α} {a' : α'}, R a a' →
    Alike R (l.foldlM f a) (l.foldlM f' a')
  | [], _, _, h => .ok h
  | c :: l, a, a', h => by
    rw [List.foldlM_cons, List.foldlM_cons]
    exact (hf a a' c h).bind fun _ _ h => foldlM hf l h

/-- Under one condition. -/
theorem ite {c : Prop} [Decidable c] {x y : Except ε α} {x' y' : Except ε α'} (h : Alike R x x')
    (h' : Alike R y y') : Alike R (if c then x else y) (if c then x' else y') := by
  by_cases hc : c
  · rwa [if_pos hc, if_pos hc]
  · rwa [if_neg hc, if_neg hc]

end Alike

end LstCore.Lib
