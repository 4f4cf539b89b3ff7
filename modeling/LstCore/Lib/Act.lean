import Mathlib.Logic.Basic
import Mathlib.Tactic.Basic

/-!
# Acts on a world

An act finds a world in some state and leaves it in another, with a result or with an error. What
happened to the world before an error stays.

* `Act.bind_eq_ok`: what is known when one act after another succeeds.
* `Act.Keeps`: an act leads from every state to one that a relation allows. The rules follow the
  program, for a relation that is reflexive and transitive: `keeps_pure`, `Keeps.bind`, and
  `Keeps.on` for an act on a part of the world.
-/

namespace LstCore.Lib

/-- What an act makes of a state. -/
def Act (ε σ : Type) (α : Type) := σ → σ × Except ε α

namespace Act

variable {ε σ τ α β : Type} {x : Act ε σ α} {f : α → Act ε σ β} {s t u : σ} {a : α} {b : β} {e : ε}

instance : Monad (Act ε σ) where
  pure a s := (s, .ok a)
  bind x f s := match x s with
    | (t, .ok a) => f a t
    | (t, .error e) => (t, .error e)

/-- Look at the state. -/
def get : Act ε σ σ := fun s => (s, .ok s)

/-- Change the state. -/
def modify (f : σ → σ) : Act ε σ Unit := fun s => (f s, .ok ())

/-- An act on a part of the world. -/
def on (part : τ → σ) (put : τ → σ → τ) (x : Act ε σ α) : Act ε τ α := fun t =>
  let (s, r) := x (part t)
  (put t s, r)

@[simp] theorem pure_apply : (pure a : Act ε σ α) s = (s, .ok a) := rfl

@[simp] theorem get_apply : (get : Act ε σ σ) s = (s, .ok s) := rfl

@[simp] theorem modify_apply {g : σ → σ} : (modify g : Act ε σ Unit) s = (g s, .ok ()) := rfl

/-- After an act that succeeds the next one goes on from where it ended. -/
theorem bind_of_ok (h : x s = (t, .ok a)) : (x >>= f) s = f a t := by
  show (match x s with | (t, .ok a) => f a t | (t, .error e) => (t, .error e)) = f a t
  rw [h]

/-- After an act that fails there is no next one. -/
theorem bind_of_error (h : x s = (t, .error e)) : (x >>= f) s = (t, .error e) := by
  show (match x s with | (t, .ok a) => f a t | (t, .error e) => (t, .error e)) = (t, .error e)
  rw [h]

theorem bind_eq_ok : (x >>= f) s = (u, .ok b) ↔ ∃ t a, x s = (t, .ok a) ∧ f a t = (u, .ok b) := by
  constructor
  · intro h
    rcases hx : x s with ⟨t, e | a⟩
    · rw [bind_of_error hx] at h
      cases h
    · rw [bind_of_ok hx] at h
      exact ⟨t, a, rfl, h⟩
  · rintro ⟨t, a, hx, h⟩
    rw [bind_of_ok hx, h]

/-- An act on a part that succeeds has done so on the part. -/
theorem on_eq_ok {part : τ → σ} {put : τ → σ → τ} {w w' : τ} : on part put x w = (w', .ok a) ↔
    ∃ s, x (part w) = (s, .ok a) ∧ w' = put w s := by
  unfold on
  rcases hx : x (part w) with ⟨s, r⟩
  constructor
  · rintro h
    obtain ⟨rfl, rfl⟩ := Prod.mk.inj h
    exact ⟨s, rfl, rfl⟩
  · rintro ⟨s', hs, rfl⟩
    obtain ⟨rfl, rfl⟩ := Prod.mk.inj hs
    rfl

/-! ## Where acts lead -/

/-- From every state the act leads to one that the relation allows. -/
def Keeps (R : σ → σ → Prop) (x : Act ε σ α) : Prop := ∀ s, R s (x s).1

variable {R : σ → σ → Prop}

theorem keeps_pure (hR : ∀ s, R s s) (a : α) : Keeps R (pure a : Act ε σ α) := hR

theorem keeps_get (hR : ∀ s, R s s) : Keeps R (get : Act ε σ σ) := hR

/-- **One after the other.** -/
theorem Keeps.bind (hR : ∀ s t u, R s t → R t u → R s u) (hx : Keeps R x)
    (hf : ∀ a, Keeps R (f a)) : Keeps R (x >>= f) := by
  intro s
  have hs : R s (x s).1 := hx s
  rcases h : x s with ⟨t, e | a⟩
  · rw [bind_of_error h]
    rwa [h] at hs
  · rw [bind_of_ok h]
    rw [h] at hs
    exact hR s t _ hs (hf a t)

/-- **On a part of the world**: the relation is one between the parts. -/
theorem Keeps.on {part : τ → σ} {put : τ → σ → τ} {S : τ → τ → Prop} (hx : Keeps R x)
    (hS : ∀ w s, R (part w) s → S w (put w s)) : Keeps S (x.on part put) := fun w =>
  hS w _ (hx (part w))

theorem Keeps.ok (hx : Keeps R x) (h : x s = (t, .ok a)) : R s t := by
  have hs := hx s
  rwa [h] at hs

end Act

end LstCore.Lib
