import Mathlib.Data.List.Forall2
import Mathlib.Tactic.Basic

/-!
# Programs that may fail

Inversion of `Except` programs, and the rules for the loops `l.mapM f` and
`l.foldlM f b` in `Except`:

* `mapM_eq_ok`: a successful traversal is a successful step at each place.
* `foldlM_inv`: a relation between the list still to come and the accumulator
  that every successful step keeps holds at the end of a successful loop.
* `foldlM_total`: if moreover every step succeeds under it, so does the loop.
* `foldlM_error`: a loop fails as one of its steps does.
-/

namespace LstCore.Lib

universe u v

variable {ε : Type u} {α β σ : Type v}

@[simp] theorem bind_eq_ok {x : Except ε α} {f : α → Except ε β} {b : β} :
    (x >>= f) = .ok b ↔ ∃ a, x = .ok a ∧ f a = .ok b := by
  cases x <;> simp [Bind.bind, Except.bind]

theorem bind_eq_error {x : Except ε α} {f : α → Except ε β} {e : ε} :
    (x >>= f) = .error e ↔ x = .error e ∨ ∃ a, x = .ok a ∧ f a = .error e := by
  cases x <;> simp [bind, Except.bind]

@[simp] theorem pure_eq_ok {a b : α} : (pure a : Except ε α) = .ok b ↔ a = b := by
  simp [pure, Except.pure]

@[simp] theorem map_eq_ok {x : Except ε α} {f : α → β} {b : β} :
    (f <$> x) = .ok b ↔ ∃ a, x = .ok a ∧ f a = b := by
  cases x <;> simp [Functor.map, Except.map]

/-- A guard that fails with `e`. -/
@[simp] theorem guard_eq_ok {c : Prop} [Decidable c] {e : ε} {x : Except ε α} {a : α} :
    (if c then .error e else x) = .ok a ↔ ¬ c ∧ x = .ok a := by
  by_cases h : c <;> simp [h]

@[simp] theorem ok_bind {a : α} {f : α → Except ε β} : ((.ok a : Except ε α) >>= f) = f a := rfl

@[simp] theorem toOption_eq_some {x : Except ε α} {a : α} : x.toOption = some a ↔ x = .ok a := by
  cases x <;> simp [Except.toOption]

/-- **A traversal, place by place.** -/
theorem mapM_eq_ok {f : α → Except ε β} : ∀ {l : List α} {out : List β},
    l.mapM f = .ok out ↔ List.Forall₂ (fun a b => f a = .ok b) l out := by
  intro l
  induction l with
  | nil => intro out; cases out <;> simp [pure, Except.pure]
  | cons a l ih =>
    intro out
    rw [List.mapM_cons]
    simp only [bind_eq_ok, pure_eq_ok, ih]
    constructor
    · rintro ⟨b, hb, bs, hbs, rfl⟩
      exact .cons hb hbs
    · intro h
      cases h with
      | cons hb hbs => exact ⟨_, hb, _, hbs, rfl⟩

/-- What each step of a traversal leaves alone, the traversal leaves alone. -/
theorem map_eq_of_forall₂ {R : α → β → Prop} {g : α → σ} {g' : β → σ}
    (hg : ∀ a b, R a b → g' b = g a) {l : List α} {out : List β} (h : List.Forall₂ R l out) :
    out.map g' = l.map g := by
  induction h with
  | nil => rfl
  | cons hab _ ih => rw [List.map_cons, List.map_cons, hg _ _ hab, ih]

/-- What a traversal returned came from somewhere. -/
theorem exists_of_forall₂ {R : α → β → Prop} {b : β} {l : List α} {out : List β}
    (h : List.Forall₂ R l out) (hb : b ∈ out) : ∃ a ∈ l, R a b := by
  induction h with
  | nil => simp at hb
  | cons hab _ ih =>
    rcases List.mem_cons.1 hb with rfl | hb
    · exact ⟨_, List.mem_cons_self, hab⟩
    · obtain ⟨a, ha, hR⟩ := ih hb
      exact ⟨a, List.mem_cons_of_mem _ ha, hR⟩

/-- **The loop rule.** `P rest acc` relates the part of the list still to come to
the accumulator. -/
theorem foldlM_inv {f : σ → α → Except ε σ} (P : List α → σ → Prop)
    (hstep : ∀ a l s s', P (a :: l) s → f s a = .ok s' → P l s') :
    ∀ (l : List α) (s s' : σ), P l s → l.foldlM f s = .ok s' → P [] s' := by
  intro l
  induction l with
  | nil => intro s s' hP h; simp at h; subst h; exact hP
  | cons a l ih =>
    intro s s' hP h
    rw [List.foldlM_cons, bind_eq_ok] at h
    obtain ⟨t, ht, h⟩ := h
    exact ih t s' (hstep a l s t hP ht) h

/-- **A loop that fails** fails as one of its steps does. -/
theorem foldlM_error {f : σ → α → Except ε σ} {e : ε} : ∀ {l : List α} {s : σ},
    l.foldlM f s = .error e → ∃ t, ∃ a ∈ l, f t a = .error e := by
  intro l
  induction l with
  | nil => intro s h; cases h
  | cons a l ih =>
    intro s h
    rw [List.foldlM_cons, bind_eq_error] at h
    rcases h with h | ⟨t, -, h⟩
    · exact ⟨s, a, List.mem_cons_self, h⟩
    · obtain ⟨u, b, hb, h⟩ := ih h
      exact ⟨u, b, List.mem_cons_of_mem a hb, h⟩

/-- **A loop whose steps all succeed** under a property that they keep succeeds. -/
theorem foldlM_total {f : σ → α → Except ε σ} (P : σ → Prop) : ∀ {l : List α},
    (∀ s, ∀ a ∈ l, P s → ∃ s', f s a = .ok s' ∧ P s') → ∀ {s : σ}, P s →
    ∃ s', l.foldlM f s = .ok s' ∧ P s' := by
  intro l
  induction l with
  | nil => intro _ s hP; exact ⟨s, rfl, hP⟩
  | cons a l ih =>
    intro hstep s hP
    obtain ⟨t, ht, hPt⟩ := hstep s a List.mem_cons_self hP
    obtain ⟨s', hs', hPs'⟩ := ih (fun s b hb => hstep s b (List.mem_cons_of_mem a hb)) hPt
    exact ⟨s', by rw [List.foldlM_cons, ht, ok_bind, hs'], hPs'⟩

/-- A traversal whose steps all succeed succeeds. -/
theorem mapM_total {f : α → Except ε β} : ∀ {l : List α}, (∀ a ∈ l, ∃ b, f a = .ok b) →
    ∃ out, l.mapM f = .ok out := by
  intro l
  induction l with
  | nil => intro _; exact ⟨[], rfl⟩
  | cons a l ih =>
    intro h
    obtain ⟨b, hb⟩ := h a List.mem_cons_self
    obtain ⟨out, hout⟩ := ih fun c hc => h c (List.mem_cons_of_mem a hc)
    exact ⟨b :: out, by rw [List.mapM_cons, hb, ok_bind, hout]; rfl⟩

end LstCore.Lib
