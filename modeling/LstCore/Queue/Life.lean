import Mathlib.Logic.Relation
import LstCore.Queue.Claims

/-!
# The life of a window

* `UnbondWindow.Life`: the moves of one window's life. Every move of the queue takes each
  window along one of them or leaves it alone (`Queue.Step.life`), so a run takes it along
  a chain of them (`Queue.lives`).
* `UnbondWindow.Aged`: what holds between an earlier and a later state of a window, however
  many moves lie between (`UnbondWindow.Life.aged`, `UnbondWindow.Aged.trans`).
-/

namespace LstCore

open Lib

/-- One move of a window's life at time `now`. -/
inductive UnbondWindow.Life (now : ℕ) (w : UnbondWindow) : UnbondWindow → Prop
  | joined {sb so : Uint128} (h : w.state = .open) (hsb : w.sharesBurned ≤ sb)
      (hso : w.scrtOwed ≤ so) : Life now w (w.joined sb so)
  | emptied (h : w.state = .open) (hdue : w.closesAt ≤ now) (hz : w.scrtOwed = 0) :
      Life now w w.emptied
  | sent {maturesAt : ℕ} {used : List String} (h : w.state = .open) (hdue : w.closesAt ≤ now)
      (hz : w.scrtOwed ≠ 0) : Life now w (w.sent maturesAt used)
  | returned {r : Uint128} (h : w.state = .unbonding) (hr : r ≤ w.scrtOwed) :
      Life now w (w.returned r)
  | paid {c : Uint128} (h : w.state = .matured) (hc : w.scrtClaimed ≤ c) (hle : c ≤ w.payable) :
      Life now w (w.paying c)

/-- The states a window of `owed` can go to. -/
inductive WindowState.Next (owed : Uint128) : WindowState → WindowState → Prop
  | emptied (hz : owed = 0) : Next owed .open .settled
  | sent (hz : owed ≠ 0) : Next owed .open .unbonding
  | returned : Next owed .unbonding .matured
  | drained : Next owed .matured .settled

/-- `w'` is a later state of the window `w`. -/
structure UnbondWindow.Aged (w w' : UnbondWindow) : Prop where
  path : Relation.ReflTransGen (WindowState.Next w'.scrtOwed) w.state w'.state
  frozen : w.state ≠ .open → w'.scrtOwed = w.scrtOwed ∧ w'.sharesBurned = w.sharesBurned ∧
    w'.validatorsUsed = w.validatorsUsed
  realised : ∀ r, w.scrtRealised = some r → w'.scrtRealised = some r
  claimed : w.scrtClaimed ≤ w'.scrtClaimed

/-- No state leads back to `Open`. -/
theorem WindowState.path_to_open {owed : Uint128} {s : WindowState}
    (h : Relation.ReflTransGen (WindowState.Next owed) s .open) : s = .open := by
  cases h with
  | refl => rfl
  | tail _ hs => cases hs

namespace UnbondWindow

variable {w w' w'' : UnbondWindow} {now : ℕ}

theorem Aged.refl (w : UnbondWindow) : w.Aged w :=
  ⟨.refl, fun _ => ⟨rfl, rfl, rfl⟩, fun _ h => h, Nat.le_refl _⟩

theorem Aged.trans (h : w.Aged w') (h' : w'.Aged w'') : w.Aged w'' where
  path := by
    by_cases ho : w'.state = .open
    · -- the window has not left `Open` yet
      have hw : w.state = .open := WindowState.path_to_open (ho ▸ h.path)
      rw [hw, ← ho]
      exact h'.path
    · have hp := h.path
      rw [← (h'.frozen ho).1] at hp
      exact hp.trans h'.path
  frozen hw := by
    have hw' : w'.state ≠ .open := fun ho => hw (WindowState.path_to_open (ho ▸ h.path))
    obtain ⟨h1, h2, h3⟩ := h.frozen hw
    obtain ⟨h1', h2', h3'⟩ := h'.frozen hw'
    exact ⟨h1'.trans h1, h2'.trans h2, h3'.trans h3⟩
  realised r hr := h'.realised r (h.realised r hr)
  claimed := Nat.le_trans h.claimed h'.claimed

/-- **One move of a window's life.** -/
theorem Life.aged (hok : w.OK) (h : w.Life now w') : w.Aged w' := by
  cases h with
  | joined ho hsb hso =>
    refine ⟨?_, fun hne => absurd ho hne, fun _ hr => hr, Nat.le_refl _⟩
    show Relation.ReflTransGen _ w.state w.state
    exact .refl
  | emptied ho hdue hz =>
    obtain ⟨hr, -⟩ := hok.realised_none (.inl ho)
    refine ⟨?_, fun hne => absurd ho hne, fun r h => by simp [hr] at h, Nat.le_refl _⟩
    rw [ho]
    exact .single (.emptied hz)
  | sent ho hdue hz =>
    refine ⟨?_, fun hne => absurd ho hne, fun _ hr => hr, Nat.le_refl _⟩
    rw [ho]
    exact .single (.sent hz)
  | returned hu hle =>
    obtain ⟨hr, -⟩ := hok.realised_none (.inr hu)
    refine ⟨?_, fun _ => ⟨rfl, rfl, rfl⟩, fun r h => by simp [hr] at h, Nat.le_refl _⟩
    rw [hu]
    exact .single .returned
  | paid hm hc hle =>
    refine ⟨?_, fun _ => by simp, fun r h => by simpa using h, by simpa using hc⟩
    rw [state_paying, hm]
    split
    · exact .single .drained
    · exact .refl

theorem Life.ok (hok : w.OK) (h : w.Life now w') : w'.OK := by
  cases h with
  | joined ho => exact hok.joined ho
  | emptied => exact emptied_ok w
  | sent ho hdue hz => exact hok.sent ho hz
  | returned hu hle => exact hok.returned hu hle
  | paid hm => exact hok.paying hm

/-- A window leaves `Open` when it is due. -/
theorem Life.leaves_open (h : w.Life now w') (ho : w.state = .open) (ho' : w'.state ≠ .open) :
    w.closesAt ≤ now := by
  cases h with
  | joined => exact absurd ho ho'
  | emptied _ hdue | sent _ hdue => exact hdue
  | returned hs | paid hs => simp [ho] at hs

theorem Life.closesAt (h : w.Life now w') : w'.closesAt = w.closesAt := by
  cases h with
  | paid => exact closesAt_paying
  | _ => rfl

/-- **A chain of moves.** -/
theorem aged_of_lives (hok : w.OK) (h : Relation.ReflTransGen (Life now) w w') :
    w.Aged w' ∧ w'.OK := by
  induction h with
  | refl => exact ⟨.refl w, hok⟩
  | tail _ hs ih => exact ⟨ih.1.trans (hs.aged ih.2), hs.ok ih.2⟩

theorem lives_closesAt (h : Relation.ReflTransGen (Life now) w w') : w'.closesAt = w.closesAt := by
  induction h with
  | refl => rfl
  | tail _ hs ih => exact hs.closesAt.trans ih

theorem lives_leaves_open (h : Relation.ReflTransGen (Life now) w w') (ho : w.state = .open)
    (ho' : w'.state ≠ .open) : w.closesAt ≤ now := by
  induction h with
  | refl => exact absurd ho ho'
  | @tail mid _ hpre hs ih =>
    by_cases hm : mid.state = .open
    · exact lives_closesAt hpre ▸ hs.leaves_open hm ho'
    · exact ih hm

end UnbondWindow

namespace Queue

variable {q q' : Queue} {id now : ℕ} {params : ProtocolParams} {w : UnbondWindow}

/-- A window that is written over goes along one move of its life, and the others stay. -/
theorem lives_put {i : ℕ} {v v' : UnbondWindow} (hv : q.windows.lookup i = some v)
    (hl : v.Life now v') (hw : q.windows.lookup id = some w) :
    ∃ w', (q.windows.insert i v').lookup id = some w' ∧
      Relation.ReflTransGen (UnbondWindow.Life now) w w' := by
  by_cases hi : id = i
  · subst hi
    rw [hw, Option.some.injEq] at hv
    subst hv
    exact ⟨v', AList.lookup_insert _, .single hl⟩
  · exact ⟨w, by rw [Keymap.lookup_put, if_neg hi]; exact hw, .refl⟩

theorem lives_advance {secs : ℕ} {active : List ℕ} {v v' : UnbondWindow} (hS : q.Shape)
    (hv : q.windows.lookup q.openWindow = some v) (hl : v.Life now v')
    (hw : q.windows.lookup id = some w) :
    ∃ w', (q.advance now secs v' active).windows.lookup id = some w' ∧
      Relation.ReflTransGen (UnbondWindow.Life now) w w' := by
  have hne : id ≠ q.nextWindowId := by have := hS.lt_next hw; omega
  obtain ⟨w', hw', hrun⟩ := lives_put hv hl hw
  exact ⟨w', by rwa [Queue.advance, Keymap.lookup_put, if_neg hne], hrun⟩

/-- **Every move** takes each window along its life or leaves it alone. -/
theorem Step.life {m : Move} (hS : q.Shape) (hC : q.Claims) (hs : Step q m q')
    (hm : m.Timed now params) (hw : q.windows.lookup id = some w) :
    ∃ w', q'.windows.lookup id = some w' ∧ Relation.ReflTransGen (UnbondWindow.Life now) w w' := by
  cases hs with
  | joinNew hv hopen hc hsb hso | joinOld hv hopen hc hsb hso =>
    refine lives_put hv (.joined hopen ?_ ?_) hw
    · rw [Word.le_def]; omega
    · rw [Word.le_def]; omega
  | closeEmpty hv hopen hdue hz =>
    obtain ⟨rfl, -⟩ := hm
    exact lives_advance hS hv (.emptied hopen hdue hz) hw
  | close hv hopen hdue hz =>
    obtain ⟨rfl, -⟩ := hm
    exact lives_advance hS hv (.sent hopen hdue hz) hw
  | mature hv hu hr => exact lives_put hv (.returned hu hr) hw
  | pay hv hmat hc hu hp hsc =>
    have hfit := hC.worth_le_outstanding hv hc hu
    refine lives_put hv (.paid hmat ?_ ?_) hw
    · rw [Word.le_def]; omega
    · rw [Word.le_def]; omega

/-- **Every run of moves** at one time takes each window along its life. -/
theorem lives {hist : List Move} (hS : q.Shape) (hC : q.Claims) (hr : Run Step q hist q')
    (hm : ∀ m ∈ hist, m.Timed now params) (hw : q.windows.lookup id = some w) :
    ∃ w', q'.windows.lookup id = some w' ∧ Relation.ReflTransGen (UnbondWindow.Life now) w w' := by
  induction hr with
  | nil => exact ⟨w, hw, .refl⟩
  | cons hr hs ih =>
    obtain ⟨v, hv, hrun⟩ := ih fun m hmem => hm m (List.mem_cons_of_mem _ hmem)
    obtain ⟨hS', hC'⟩ := Claims.run hS hC hr
    obtain ⟨w', hw', hrun'⟩ := hs.life hS' hC' (hm _ List.mem_cons_self) hv
    exact ⟨w', hw', hrun.trans hrun'⟩

end Queue

end LstCore
