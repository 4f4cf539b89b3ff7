import LstCore.Queue.Claims

/-!
# What the moves do to what is owed

A request adds to what the open window owes; closing it moves that to the windows in
flight; a return takes what a window owes out of them and adds what came back to what
the matured windows owe; a payment takes it out of there (`owed_join`, `owed_close`,
`owed_mature`, `owed_pay`).
-/

namespace LstCore

open Lib

namespace Queue

variable {q q' : Queue} {u : Addr} {id : ℕ} {w w' : UnbondWindow} {c : ClaimRecord}

/-- What a window counts for among the windows in flight. -/
def inFlight (w : UnbondWindow) : ℕ := if w.state = .unbonding then w.scrtOwed.val else 0

/-- What a window counts for among the matured windows. -/
def stillDue (w : UnbondWindow) : ℕ := if w.state = .matured then w.outstanding.val else 0

theorem unbondingOwed_put (hw : q.windows.lookup id = some w)
    (hq : q'.windows = q.windows.insert id w') :
    q'.unbondingOwed + inFlight w = q.unbondingOwed + inFlight w' := by
  unfold unbondingOwed
  rw [hq]
  exact Keymap.total_insert_old (f := fun _ w => inFlight w) hw

theorem maturedOwed_put (hw : q.windows.lookup id = some w)
    (hq : q'.windows = q.windows.insert id w') :
    q'.maturedOwed + stillDue w = q.maturedOwed + stillDue w' := by
  unfold maturedOwed
  rw [hq]
  exact Keymap.total_insert_old (f := fun _ w => stillDue w) hw

theorem openOwed_eq (hw : q.windows.lookup q.openWindow = some w) : q.openOwed = w.scrtOwed.val := by
  unfold openOwed; rw [hw]; rfl

theorem openOwed_put (hq : q'.windows = q.windows.insert id w') (ho : q'.openWindow = q.openWindow)
    (hid : id ≠ q.openWindow) : q'.openOwed = q.openOwed := by
  unfold openOwed; rw [hq, ho, Keymap.lookup_put, if_neg (Ne.symm hid)]

theorem stillDue_le (hw : q.windows.lookup id = some w) : stillDue w ≤ q.maturedOwed :=
  Keymap.le_total (f := fun _ w => stillDue w) hw

theorem Shape.ne_open (h : q.Shape) (hw : q.windows.lookup id = some w) (hs : w.state ≠ .open) :
    id ≠ q.openWindow := fun he => hs ((h.isOpen id w hw).2 he)

/-- What a request does to the windows. -/
theorem Step.join_windows {shares owed : Uint128} (hs : Step q (.join u shares owed) q') :
    ∃ w sb so, q.windows.lookup q.openWindow = some w ∧ w.state = .open ∧
      so.val = w.scrtOwed.val + owed.val ∧ q'.openWindow = q.openWindow ∧
      q'.windows = q.windows.insert q.openWindow (w.joined sb so) := by
  cases hs with
  | joinNew hw hopen hc hsb hso => exact ⟨_, _, _, hw, hopen, hso, rfl, rfl⟩
  | joinOld hw hopen hc hsb hso => exact ⟨_, _, _, hw, hopen, hso, rfl, rfl⟩

/-- What a payment does to the windows. -/
theorem Step.pay_windows {p : Uint128} (hs : Step q (.pay u id p) q') :
    ∃ w c sc, q.windows.lookup id = some w ∧ w.state = .matured ∧
      q.claims.lookup (u, id) = some c ∧ c.claimed = false ∧ p.val = worth w c ∧
      sc.val = w.scrtClaimed.val + p.val ∧ q'.openWindow = q.openWindow ∧
      q'.windows = q.windows.insert id (w.paying sc) ∧
      q'.claims = q.claims.insert (u, id) { c with claimed := true } := by
  cases hs with
  | pay hw hm hc hu hp hsc => exact ⟨_, _, _, hw, hm, hc, hu, hp, hsc, rfl, rfl, rfl⟩

theorem Step.close_claims {now m secs : ℕ} {used : List String}
    (hs : Step q (.close now m secs used) q') : q'.claims = q.claims := by
  cases hs <;> rfl

/-- A request adds to what the open window owes. -/
theorem owed_join {shares owed : Uint128} (hs : Step q (.join u shares owed) q') :
    q'.openOwed = q.openOwed + owed.val ∧ q'.unbondingOwed = q.unbondingOwed ∧
      q'.maturedOwed = q.maturedOwed := by
  obtain ⟨w, sb, so, hw, hopen, hso, ho, hq⟩ := hs.join_windows
  refine ⟨?_, ?_, ?_⟩
  · rw [openOwed_eq hw, ← hso, openOwed_eq (w := w.joined sb so)]
    · rfl
    · rw [hq, ho, AList.lookup_insert]
  · have := unbondingOwed_put hw hq; simpa [inFlight, UnbondWindow.joined, hopen] using this
  · have := maturedOwed_put hw hq; simpa [stillDue, UnbondWindow.joined, hopen] using this

/-- Closing the open window moves a sum over the windows by the closed one minus the open. -/
theorem total_advance (f : ℕ → UnbondWindow → ℕ) (w' : UnbondWindow) (hS : q.Shape)
    (hw : q.windows.lookup q.openWindow = some w) (now windowSecs : ℕ) (active : List ℕ)
    (h0 : f q.nextWindowId (Windows.open q.nextWindowId now windowSecs) = 0) :
    (q.advance now windowSecs w' active).windows.total f + f q.openWindow w =
      q.windows.total f + f q.openWindow w' := by
  -- the successor is a new entry, the window that closes an old one
  have hnext : (q.windows.insert q.openWindow w').lookup q.nextWindowId = none := by
    rw [Keymap.lookup_put, if_neg (by have := hS.next; omega), hS.lookup_next]
  have h := Keymap.total_insert_old (f := f) (v := w') hw
  have h' := Keymap.total_insert_new (f := f)
    (v := Windows.open q.nextWindowId now windowSecs) hnext
  simp only [Queue.advance] at h' ⊢
  omega

theorem owed_advance (w' : UnbondWindow) (hS : q.Shape) (hw : q.windows.lookup q.openWindow = some w)
    (now windowSecs : ℕ) (active : List ℕ) :
    (q.advance now windowSecs w' active).openOwed = 0 ∧
      (q.advance now windowSecs w' active).unbondingOwed + inFlight w =
        q.unbondingOwed + inFlight w' ∧
      (q.advance now windowSecs w' active).maturedOwed + stillDue w =
        q.maturedOwed + stillDue w' := by
  refine ⟨?_, total_advance (fun _ w => inFlight w) w' hS hw now windowSecs active rfl,
    total_advance (fun _ w => stillDue w) w' hS hw now windowSecs active rfl⟩
  rw [openOwed_eq (w := Windows.open q.nextWindowId now windowSecs)]
  · rfl
  · simp only [Queue.advance, AList.lookup_insert]

/-- Closing moves what the open window owes to the windows in flight. -/
theorem owed_close {now m secs : ℕ} {used : List String} (hS : q.Shape)
    (hs : Step q (.close now m secs used) q') :
    q'.openOwed = 0 ∧ q'.unbondingOwed = q.unbondingOwed + q.openOwed ∧
      q'.maturedOwed = q.maturedOwed := by
  cases hs with
  | closeEmpty hw hopen hdue hz =>
    obtain ⟨h0, hu, hm⟩ := owed_advance (UnbondWindow.emptied _) hS hw now secs q.activeWindows
    rw [openOwed_eq hw, Word.eq_zero_iff.1 hz]
    simp [inFlight, stillDue, UnbondWindow.emptied, hopen] at hu hm
    exact ⟨h0, hu, hm⟩
  | close hw hopen hdue hz =>
    obtain ⟨h0, hu, hm⟩ := owed_advance (UnbondWindow.sent _ m used) hS hw now secs
      (q.activeWindows ++ [q.openWindow])
    rw [openOwed_eq hw]
    simp [inFlight, stillDue, UnbondWindow.sent, hopen] at hu hm
    exact ⟨h0, hu, hm⟩

/-- A payment takes itself out of what the matured windows owe. -/
theorem owed_pay {p : Uint128} (hS : q.Shape) (hC : q.Claims) (hs : Step q (.pay u id p) q') :
    q'.openOwed = q.openOwed ∧ q'.unbondingOwed = q.unbondingOwed ∧
      q'.maturedOwed + p.val = q.maturedOwed := by
  obtain ⟨w, c, sc, hw, hm, hc, hu, hp, hsc, ho, hwin, -⟩ := hs.pay_windows
  have hfit := hC.worth_le_outstanding hw hc hu
  refine ⟨openOwed_put hwin ho (hS.ne_open hw (by simp [hm])), ?_, ?_⟩
  · have hflight : inFlight (w.paying sc) = 0 := by
      unfold inFlight; rw [UnbondWindow.state_paying, hm]; split <;> simp_all
    have := unbondingOwed_put hw hwin
    rw [hflight] at this
    simpa [inFlight, hm] using this
  · have hdue : stillDue (w.paying sc) = w.payable.val - sc.val := by
      unfold stillDue
      rw [UnbondWindow.state_paying, hm, UnbondWindow.outstanding, UnbondWindow.payable_paying,
        UnbondWindow.scrtClaimed_paying, Word.val_satSub]
      by_cases hd : w.payable ≤ sc
      · have := Word.le_def.1 hd
        simp [hd]; omega
      · simp [hd]
    have := maturedOwed_put hw hwin
    rw [hdue] at this
    simp only [stillDue, hm, if_true, UnbondWindow.outstanding, Word.val_satSub] at this
    omega

end Queue

end LstCore
