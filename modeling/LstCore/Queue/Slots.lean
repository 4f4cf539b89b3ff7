import LstCore.Queue.Ledger

/-!
# The windows in flight, validator by validator

`Queue.uses q a` counts the windows in flight that drew on the validator `a`. Closing
adds one for each validator drawn on, a return takes one off, and no other move changes
a count (`uses_close`, `uses_join`, `uses_pay`).
-/

namespace LstCore

open Lib

namespace Queue

variable {q q' : Queue} {u : Addr} {id i : ℕ} {w : UnbondWindow} {a : String}

/-- One for a window in flight that drew on the validator. -/
def holds (a : String) (w : UnbondWindow) : ℕ :=
  if w.state = .unbonding ∧ a ∈ w.validatorsUsed then 1 else 0

/-- The windows in flight that drew on a validator. -/
def uses (q : Queue) (a : String) : ℕ := q.windows.total fun _ w => holds a w

/-- The windows in flight. -/
def inFlightCount (q : Queue) : ℕ := q.windows.total fun _ w => if w.state = .unbonding then 1 else 0

theorem holds_of_state (h : w.state ≠ .unbonding) : holds a w = 0 := by simp [holds, h]

theorem uses_put {w' : UnbondWindow} (hw : q.windows.lookup id = some w)
    (hq : q'.windows = q.windows.insert id w') : q'.uses a + holds a w = q.uses a + holds a w' := by
  unfold uses
  rw [hq]
  exact Keymap.total_insert_old (f := fun _ w => holds a w) hw

theorem uses_join {shares owed : Uint128} (hs : Step q (.join u shares owed) q') :
    q'.uses a = q.uses a := by
  obtain ⟨w, sb, so, hw, hopen, -, -, hq⟩ := hs.join_windows
  have h := uses_put (a := a) hw hq
  rwa [holds_of_state (by simp [hopen]), holds_of_state (w := w.joined sb so)
    (by simp [UnbondWindow.joined, hopen])] at h

theorem uses_pay {p : Uint128} (hs : Step q (.pay u id p) q') : q'.uses a = q.uses a := by
  obtain ⟨w, c, sc, hw, hm, -, -, -, -, -, hq, -⟩ := hs.pay_windows
  have h := uses_put (a := a) hw hq
  rwa [holds_of_state (by simp [hm]), holds_of_state (by
    rw [UnbondWindow.state_paying, hm]; split <;> simp)] at h

theorem uses_close {now m secs : ℕ} {used : List String} (hS : q.Shape)
    (hw : q.windows.lookup q.openWindow = some w) (hs : Step q (.close now m secs used) q') :
    q'.uses a = q.uses a + if w.scrtOwed ≠ 0 ∧ a ∈ used then 1 else 0 := by
  have h0 : holds a (Windows.open q.nextWindowId now secs) = 0 := by simp [holds, Windows.open]
  cases hs with
  | closeEmpty hw' hopen hdue hz =>
    rw [hw] at hw'
    cases hw'
    have h := total_advance (fun _ w => holds a w) w.emptied hS hw now secs q.activeWindows h0
    rw [holds_of_state (by simp [hopen]), holds_of_state (by simp [UnbondWindow.emptied])] at h
    simpa [hz, uses] using h
  | close hw' hopen hdue hz =>
    rw [hw] at hw'
    cases hw'
    have h := total_advance (fun _ w => holds a w) (w.sent m used) hS hw now secs
      (q.activeWindows ++ [q.openWindow]) h0
    rw [holds_of_state (by simp [hopen])] at h
    simpa [hz, uses, holds, UnbondWindow.sent] using h

/-- A window in flight was in flight before, or is the one just closed. -/
theorem Step.in_flight {m : Move} (hs : Step q m q') (hw : q'.windows.lookup id = some w)
    (hf : w.state = .unbonding) :
    q.windows.lookup id = some w ∨
      ∃ now mat secs used v, m = .close now mat secs used ∧
        q.windows.lookup q.openWindow = some v ∧ v.scrtOwed ≠ 0 ∧ w = v.sent mat used := by
  cases hs with
  | joinNew hw' hopen hc hsb hso | joinOld hw' hopen hc hsb hso hcsb hcso =>
    rcases Keymap.put_cases hw with ⟨-, rfl⟩ | ⟨-, hw⟩
    · simp [UnbondWindow.joined, hopen] at hf
    · exact .inl hw
  | closeEmpty hw' hopen hdue hz =>
    rcases advance_cases hw with ⟨-, rfl⟩ | ⟨-, -, rfl⟩ | ⟨-, -, hw⟩
    · simp [Windows.open] at hf
    · simp [UnbondWindow.emptied] at hf
    · exact .inl hw
  | close hw' hopen hdue hz =>
    rcases advance_cases hw with ⟨-, rfl⟩ | ⟨-, -, rfl⟩ | ⟨-, -, hw⟩
    · simp [Windows.open] at hf
    · exact .inr ⟨_, _, _, _, _, rfl, hw', hz, rfl⟩
    · exact .inl hw
  | mature hw' hun hr =>
    rcases Keymap.put_cases hw with ⟨-, rfl⟩ | ⟨-, hw⟩
    · simp [UnbondWindow.returned] at hf
    · exact .inl hw
  | pay hw' hm hc hu hp hsc =>
    rcases Keymap.put_cases hw with ⟨-, rfl⟩ | ⟨-, hw⟩
    · rw [UnbondWindow.state_paying, hm] at hf
      split at hf <;> simp at hf
    · exact .inl hw

/-- Each window in flight drew on one of the validators listed, so there are at most as many
as these validators are drawn on. -/
theorem inFlightCount_le {l : List String}
    (h : ∀ id w, q.windows.lookup id = some w → w.state = .unbonding →
      ∃ a ∈ l, a ∈ w.validatorsUsed) : q.inFlightCount ≤ (l.map q.uses).sum := by
  have hsum : ∀ l : List String, (l.map q.uses).sum =
      q.windows.total fun _ w => (l.map fun a => holds a w).sum := by
    intro l
    induction l with
    | nil => simp [Keymap.total]
    | cons a l ih =>
      simp only [List.map_cons, List.sum_cons, ih, uses]
      exact Keymap.total_add.symm
  -- counted window by window, each one in flight is met at least once
  rw [hsum]
  refine Keymap.total_mono fun id w hw => ?_
  by_cases hs : w.state = .unbonding
  · obtain ⟨a, hal, hau⟩ := h id w hw hs
    have hle := List.single_le_sum (l := l.map fun a => holds a w) (fun _ _ => Nat.zero_le _)
      _ (List.mem_map_of_mem hal)
    simpa [holds, hs, hau] using hle
  · simp [hs]

end Queue

end LstCore
