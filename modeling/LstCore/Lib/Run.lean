import Mathlib.Algebra.BigOperators.Group.List.Basic
import Mathlib.Algebra.Ring.Nat
import Mathlib.Logic.Basic
import Mathlib.Tactic.Basic

/-!
# Runs of a labelled transition system

`Run step s h t`: the system goes from `s` to `t` along the events `h`, the
newest first. The rules:

* `Run.inv`: what holds at the start and is kept by every step holds at the end.
* `Run.inv_of_mem`: the same when only the events that occur are known to keep it.
* `Run.guarded_iff`: under a guard that is exact, the guarded runs are the runs through
  good states.
* `Run.sum_eq`: what every step moves by an amount of its event, a run moves by their sums.
* `Run.break_even_iff`: where no step gains, the runs that break even are the runs whose steps do.
* `Run.refine`: where each step of a system is a run of another, so is each of its runs.
* `Run.of_foldlM`: a loop over a partial step function is a run of it.
* `exists_foldlM_iff`: such a loop goes through exactly when each step that it comes to does.
* `foldlM_done`, `foldlM_idle`: what its steps have done is done at the end, and a loop over what is
  done changes nothing.
-/

namespace LstCore.Lib

variable {σ ε τ : Type*}

/-- The system goes from `s` along the events, the newest first. -/
inductive Run (step : σ → ε → σ → Prop) (s : σ) : List ε → σ → Prop
  | nil : Run step s [] s
  | cons {h : List ε} {t u : σ} {e : ε} : Run step s h t → step t e u → Run step s (e :: h) u

/-- The steps whose state and event meet a guard. -/
def Guarded (step : σ → ε → σ → Prop) (guard : σ → ε → Prop) (s : σ) (e : ε) (t : σ) : Prop :=
  step s e t ∧ guard s e

/-- A partial step function that checks a guard first. -/
def checked (next : σ → ε → Option σ) (guard : σ → ε → Prop) [∀ s e, Decidable (guard s e)]
    (s : σ) (e : ε) : Option σ := if guard s e then next s e else none

theorem checked_eq_some {next : σ → ε → Option σ} {guard : σ → ε → Prop}
    [∀ s e, Decidable (guard s e)] {s t : σ} {e : ε} :
    checked next guard s e = some t ↔ guard s e ∧ next s e = some t := by
  unfold checked
  split <;> simp_all

/-- **A loop over a partial step function** goes through exactly when each step that it comes to is
all right, where a step uses up one of the turns that an invariant allows. -/
theorem exists_foldlM_iff {next : σ → ε → Option σ} {P : ℕ → σ → Prop} {g : σ → ε → Prop}
    (hg : ∀ n s e, P (n + 1) s → ((∃ t, next s e = some t) ↔ g s e))
    (hP : ∀ n s e t, P (n + 1) s → next s e = some t → P n t) :
    ∀ {es : List ε} {s : σ}, P es.length s → ((∃ t, es.foldlM next s = some t) ↔
      ∀ before e after t, es = before ++ e :: after → before.foldlM next s = some t → g t e) := by
  intro es
  induction es with
  | nil => exact fun _ => ⟨fun _ before e after t h => by simp at h, fun _ => ⟨_, rfl⟩⟩
  | cons a es ih =>
    intro s hs
    simp only [List.foldlM_cons, Option.bind_eq_bind, Option.bind_eq_some_iff]
    constructor
    · rintro ⟨t, u, hu, h⟩ before e after v hsplit hv
      cases before with
      | nil =>
        obtain ⟨rfl, rfl⟩ := List.cons.inj hsplit
        obtain rfl := Option.some.inj hv
        exact (hg _ _ _ hs).1 ⟨u, hu⟩
      | cons b before =>
        obtain ⟨rfl, rfl⟩ := List.cons.inj hsplit
        rw [List.foldlM_cons, hu, Option.bind_eq_bind, Option.bind_some] at hv
        exact (ih (hP _ _ _ _ hs hu)).1 ⟨t, h⟩ before e after v rfl hv
    · intro hall
      obtain ⟨u, hu⟩ := (hg _ _ _ hs).2 (hall [] a es s rfl rfl)
      obtain ⟨t, h⟩ := (ih (hP _ _ _ _ hs hu)).2 fun before e after v hsplit hv =>
        hall (a :: before) e after v (congrArg (a :: ·) hsplit) (by
          rw [List.foldlM_cons, hu, Option.bind_eq_bind, Option.bind_some, hv])
      exact ⟨t, u, hu, h⟩

/-- **What is done stays done.** Where a step does what it is for, and undoes nothing of what the steps
of the loop are for, all of them have done it at the end. -/
theorem foldlM_done {next : σ → ε → Option σ} {P : σ → Prop} {D : σ → ε → Prop} {es : List ε}
    (hstep : ∀ s e t, e ∈ es → P s → next s e = some t →
      P t ∧ D t e ∧ ∀ e' ∈ es, D s e' → D t e')
    {s t : σ} (hs : P s) (h : es.foldlM next s = some t) : P t ∧ ∀ e ∈ es, D t e := by
  suffices hsuff : ∀ (l : List ε) (s : σ), (∀ e ∈ l, e ∈ es) → P s → l.foldlM next s = some t →
      P t ∧ ∀ e ∈ es, e ∈ l ∨ D s e → D t e from by
    obtain ⟨hP, hdone⟩ := hsuff es s (fun _ he => he) hs h
    exact ⟨hP, fun e he => hdone e he (.inl he)⟩
  intro l
  induction l with
  | nil =>
    intro s _ hs h
    obtain rfl := Option.some.inj h
    exact ⟨hs, fun e _ hd => hd.resolve_left List.not_mem_nil⟩
  | cons a l ih =>
    intro s hl hs h
    rw [List.foldlM_cons, Option.bind_eq_bind, Option.bind_eq_some_iff] at h
    obtain ⟨u, hu, h⟩ := h
    obtain ⟨hP, hdone, hkeep⟩ := hstep s a u (hl a List.mem_cons_self) hs hu
    obtain ⟨hP', hdone'⟩ := ih u (fun e he => hl e (List.mem_cons_of_mem a he)) hP h
    refine ⟨hP', fun e he hd => hdone' e he ?_⟩
    rcases hd with hd | hd
    · rcases List.mem_cons.1 hd with rfl | hd
      · exact .inr hdone
      · exact .inl hd
    · exact .inr (hkeep e he hd)

/-- **A loop over what is done** changes nothing. -/
theorem foldlM_idle {next : σ → ε → Option σ} {s t : σ} : ∀ {es : List ε},
    (∀ e ∈ es, ∀ u, next s e = some u → u = s) → es.foldlM next s = some t → t = s := by
  intro es
  induction es with
  | nil => exact fun _ h => (Option.some.inj h).symm
  | cons e es ih =>
    intro hidle h
    rw [List.foldlM_cons, Option.bind_eq_bind, Option.bind_eq_some_iff] at h
    obtain ⟨u, hu, h⟩ := h
    obtain rfl := hidle e List.mem_cons_self u hu
    exact ih (fun e he => hidle e (List.mem_cons_of_mem _ he)) h

namespace Run

variable {step : σ → ε → σ → Prop} {s t u : σ} {h h' : List ε}

/-- **The invariant rule.** -/
theorem inv {P : σ → Prop} (h0 : P s) (hstep : ∀ s e t, P s → step s e t → P t)
    (hr : Run step s h t) : P t := by
  induction hr with
  | nil => exact h0
  | cons _ hs ih => exact hstep _ _ _ ih hs

/-- **The invariant rule for a history.** Only the events that occur have to keep it. -/
theorem inv_of_mem {P : σ → Prop} (h0 : P s) (hr : Run step s h t)
    (hstep : ∀ s e t, e ∈ h → P s → step s e t → P t) : P t := by
  induction hr with
  | nil => exact h0
  | cons _ hs ih =>
    exact hstep _ _ _ List.mem_cons_self
      (ih fun s e t he => hstep s e t (List.mem_cons_of_mem _ he)) hs

/-- **A guard that an invariant turns into another.** -/
theorem guarded_mono {g g' : σ → ε → Prop} {I : σ → Prop} (h0 : I s)
    (hstep : ∀ s e t, I s → step s e t → g s e → g' s e ∧ I t)
    (hr : Run (Guarded step g) s h t) : Run (Guarded step g') s h t ∧ I t := by
  induction hr with
  | nil => exact ⟨.nil, h0⟩
  | cons _ hs ih =>
    obtain ⟨hr, hI⟩ := ih
    obtain ⟨hg, hI⟩ := hstep _ _ _ hI hs.1 hs.2
    exact ⟨.cons hr ⟨hs.1, hg⟩, hI⟩

/-- A run meets a guard throughout, or it has a step that does not. -/
theorem guarded_or (guard : σ → ε → Prop) (hr : Run step s h t) :
    Run (Guarded step guard) s h t ∨
      ∃ s₁ e t₁ h₁ h₂, h = h₂ ++ e :: h₁ ∧ Run step s h₁ s₁ ∧ step s₁ e t₁ ∧ Run step t₁ h₂ t ∧
        ¬ guard s₁ e := by
  induction hr with
  | nil => exact .inl .nil
  | @cons h t u e hr hs ih =>
    rcases ih with ih | ⟨s₁, x, t₁, h₁, h₂, rfl, hfirst, hx, hlast, hn⟩
    · by_cases hg : guard t e
      · exact .inl (.cons ih ⟨hs, hg⟩)
      · exact .inr ⟨t, e, u, h, [], rfl, hr, hs, .nil, hg⟩
    · exact .inr ⟨s₁, x, t₁, h₁, e :: h₂, rfl, hfirst, hx, .cons hlast hs, hn⟩

/-- **A guard that is exact.** When on every step from a state with the invariant the guard
says whether the next state is good, the guarded runs are the runs through good states. -/
theorem guarded_iff {guard : σ → ε → Prop} {I P : σ → Prop} (h0 : I s)
    (hI : ∀ s e t, I s → step s e t → P t → I t)
    (hiff : ∀ s e t, I s → step s e t → (guard s e ↔ P t)) :
    Run (Guarded step guard) s h t ↔ Run (fun s e t => step s e t ∧ P t) s h t := by
  constructor
  · intro hr
    suffices hsuff : Run (fun s e t => step s e t ∧ P t) s h t ∧ I t from hsuff.1
    induction hr with
    | nil => exact ⟨.nil, h0⟩
    | cons _ hs ih =>
      obtain ⟨hr, hIt⟩ := ih
      have hP := (hiff _ _ _ hIt hs.1).1 hs.2
      exact ⟨.cons hr ⟨hs.1, hP⟩, hI _ _ _ hIt hs.1 hP⟩
  · intro hr
    suffices hsuff : Run (Guarded step guard) s h t ∧ I t from hsuff.1
    induction hr with
    | nil => exact ⟨.nil, h0⟩
    | cons _ hs ih =>
      obtain ⟨hr, hIt⟩ := ih
      exact ⟨.cons hr ⟨hs.1, (hiff _ _ _ hIt hs.1).2 hs.2⟩, hI _ _ _ hIt hs.1 hs.2⟩

/-- **The balance rule.** What every step moves by amounts of its event, a run moves by their
sums. -/
theorem sum_eq {P : σ → Prop} {f : σ → ℕ} {out into : ε → ℕ} (h0 : P s)
    (hstep : ∀ s e t, P s → step s e t → P t ∧ f t + out e = f s + into e) (hr : Run step s h t) :
    f t + (h.map out).sum = f s + (h.map into).sum := by
  suffices hsuff : P t ∧ f t + (h.map out).sum = f s + (h.map into).sum from hsuff.2
  induction hr with
  | nil => exact ⟨h0, rfl⟩
  | cons _ hs ih =>
    obtain ⟨hP, hf⟩ := ih
    obtain ⟨hP, hf'⟩ := hstep _ _ _ hP hs
    refine ⟨hP, ?_⟩
    rw [List.map_cons, List.sum_cons, List.map_cons, List.sum_cons]
    omega

/-- **The exact balance rule.** Where no step gains, and the guard says which steps break even, a
run breaks even exactly if all its steps meet the guard. -/
theorem break_even_iff {guard : σ → ε → Prop} {P : σ → Prop} {f : σ → ℕ} {out into : ε → ℕ}
    (h0 : P s) (hstep : ∀ s e t, P s → step s e t →
      P t ∧ f t + out e ≤ f s + into e ∧ (f t + out e = f s + into e ↔ guard s e))
    (hr : Run step s h t) :
    f t + (h.map out).sum = f s + (h.map into).sum ↔ Run (Guarded step guard) s h t := by
  constructor
  · suffices hsuff : P t ∧ f t + (h.map out).sum ≤ f s + (h.map into).sum ∧
        (f t + (h.map out).sum = f s + (h.map into).sum → Run (Guarded step guard) s h t) from hsuff.2.2
    induction hr with
    | nil => exact ⟨h0, Nat.le_refl _, fun _ => .nil⟩
    | cons _ hs ih =>
      obtain ⟨hP, hle, hguard⟩ := ih
      obtain ⟨hP', hle', hiff⟩ := hstep _ _ _ hP hs
      rw [List.map_cons, List.sum_cons, List.map_cons, List.sum_cons]
      -- what the steps before have lost is not made up for
      exact ⟨hP', by omega, fun heq => .cons (hguard (by omega)) ⟨hs, hiff.1 (by omega)⟩⟩
  · exact sum_eq h0 fun s e t hP hs =>
      ⟨(hstep s e t hP hs.1).1, (hstep s e t hP hs.1).2.2.2 hs.2⟩

theorem trans (hr : Run step s h t) (hr' : Run step t h' u) : Run step s (h' ++ h) u := by
  induction hr' with
  | nil => exact hr
  | cons _ hs ih => exact .cons ih hs

/-- Only the events that occur have to be steps of the other system. -/
theorem mono_of_mem {step' : σ → ε → σ → Prop} (hr : Run step s h t)
    (hsub : ∀ s e t, e ∈ h → step s e t → step' s e t) : Run step' s h t := by
  induction hr with
  | nil => exact .nil
  | cons _ hs ih =>
    exact .cons (ih fun s e t he => hsub s e t (List.mem_cons_of_mem _ he))
      (hsub _ _ _ List.mem_cons_self hs)

theorem mono {step' : σ → ε → σ → Prop} (hsub : ∀ s e t, step s e t → step' s e t)
    (hr : Run step s h t) : Run step' s h t := hr.mono_of_mem fun s e t _ => hsub s e t

theorem single {e : ε} (hs : step s e t) : Run step s [e] t := .cons .nil hs

/-- **Refinement.** Where under an invariant each step is a run of another system, so is a run. -/
theorem refine {ε' : Type*} {step' : σ → ε' → σ → Prop} {I : σ → Prop} (h0 : I s)
    (hstep : ∀ s e t, I s → step s e t → I t ∧ ∃ h', Run step' s h' t) (hr : Run step s h t) :
    I t ∧ ∃ h', Run step' s h' t := by
  induction hr with
  | nil => exact ⟨h0, [], .nil⟩
  | cons _ hs ih =>
    obtain ⟨hI, h₁, hr₁⟩ := ih
    obtain ⟨hI', h₂, hr₂⟩ := hstep _ _ _ hI hs
    exact ⟨hI', _, hr₁.trans hr₂⟩

/-- **A loop over a partial step function is a run of it.** -/
theorem of_foldlM {next : σ → ε → Option σ} : ∀ {es : List ε} {s t : σ}, es.foldlM next s = some t →
    Run (fun s e t => next s e = some t) s es.reverse t := by
  intro es
  induction es with
  | nil =>
    intro s t h
    simp only [List.foldlM_nil, Option.pure_def, Option.some.injEq] at h
    subst h
    exact .nil
  | cons e es ih =>
    intro s t h
    rw [List.foldlM_cons, Option.bind_eq_bind, Option.bind_eq_some_iff] at h
    obtain ⟨u, hu, h⟩ := h
    rw [List.reverse_cons]
    exact (single hu).trans (ih h)

/-- A loop that checks a guard before each step is a guarded run. -/
theorem of_checked {next : σ → ε → Option σ} {guard : σ → ε → Prop} [∀ s e, Decidable (guard s e)]
    {es : List ε} (h : es.foldlM (checked next guard) s = some t) :
    Run (Guarded (fun s e t => next s e = some t) guard) s es.reverse t :=
  (of_foldlM h).mono fun _ _ _ hs => (checked_eq_some.1 hs).symm

end Run

end LstCore.Lib
