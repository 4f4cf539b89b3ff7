import LstCore.Queue.Claims
import LstCore.Queue.Ledger

/-!
# Each claim is paid once

What a history has paid on a claim is nothing while the claim is not marked, and a single
payment of its worth once it is (`Queue.paymentsOn_eq`).
-/

namespace LstCore

open Lib

/-- What a move pays on a claim. -/
def Move.paymentOn (u : Addr) (id : ℕ) : Move → List ℕ
  | .pay v i p => if v = u ∧ i = id then [p.val] else []
  | _ => []

/-- The payments of a history on a claim. -/
def paymentsOn (u : Addr) (id : ℕ) (hist : List Move) : List ℕ := hist.flatMap (Move.paymentOn u id)

namespace Queue

variable {q q' : Queue} {u : Addr} {id : ℕ} {w w' : UnbondWindow} {c : ClaimRecord}

/-- What must have been paid on a claim: its worth, once it is marked. -/
def paidFor (q : Queue) (u : Addr) (id : ℕ) : List ℕ :=
  match q.claims.lookup (u, id), q.windows.lookup id with
  | some c, some w => if c.claimed then [worth w c] else []
  | _, _ => []

theorem paidFor_unclaimed (h : ∀ c, q.claims.lookup (u, id) = some c → c.claimed = false) :
    q.paidFor u id = [] := by
  unfold paidFor
  rcases hc : q.claims.lookup (u, id) with _ | c
  · rfl
  · rcases q.windows.lookup id with _ | w <;> simp [h c hc]

theorem paidFor_congr (hc : q'.claims.lookup (u, id) = q.claims.lookup (u, id))
    (hw : q'.windows.lookup id = q.windows.lookup id) : q'.paidFor u id = q.paidFor u id := by
  unfold paidFor; rw [hc, hw]

/-- No claim against a window that has not come back is marked. -/
theorem Claims.not_marked (h : q.Claims) (hw : q.windows.lookup id = some w)
    (hs : w.state = .open ∨ w.state = .unbonding) :
    ∀ c, q.claims.lookup (u, id) = some c → c.claimed = false :=
  fun c hc => h.unclaimed u id c w hc hw hs

/-- A request pays nothing: no claim against the window it joins is marked. -/
theorem paidFor_join {v : Addr} (hC : q.Claims) (hw : q.windows.lookup q.openWindow = some w)
    (hopen : w.state = .open) (hcl : q'.claims = q.claims.insert (v, q.openWindow) c)
    (hwin : q'.windows = q.windows.insert q.openWindow w') (hun : c.claimed = false) :
    q'.paidFor u id = q.paidFor u id := by
  have hnot := hC.not_marked (u := u) hw (.inl hopen)
  by_cases hid : id = q.openWindow
  · subst hid
    rw [paidFor_unclaimed hnot]
    refine paidFor_unclaimed fun d hd => ?_
    rw [hcl] at hd
    rcases Keymap.put_cases hd with ⟨-, rfl⟩ | ⟨-, hd⟩
    · exact hun
    · exact hnot d hd
  · refine paidFor_congr ?_ ?_
    · rw [hcl, Keymap.lookup_put, if_neg (by simp [hid])]
    · rw [hwin, Keymap.lookup_put, if_neg hid]

/-- Closing pays nothing: no claim against the window is marked. -/
theorem paidFor_advance (hC : q.Claims) (hS : q.Shape)
    (hw : q.windows.lookup q.openWindow = some w) (hopen : w.state = .open) (now secs : ℕ)
    (active : List ℕ) : (q.advance now secs w' active).paidFor u id = q.paidFor u id := by
  by_cases hid : id = q.openWindow ∨ id = q.nextWindowId
  · have hun : ∀ c, q.claims.lookup (u, id) = some c → c.claimed = false := by
      rcases hid with rfl | rfl
      · exact hC.not_marked hw (.inl hopen)
      · intro c hc
        rw [hC.lookup_of_none hS.lookup_next] at hc
        simp at hc
    rw [paidFor_unclaimed hun]
    exact paidFor_unclaimed hun
  · push Not at hid
    refine paidFor_congr rfl ?_
    rw [lookup_advance, if_neg hid.2, if_neg hid.1]

/-- **One move.** -/
theorem Step.paidFor_eq {m : Move} (hS : q.Shape) (hC : q.Claims) (hs : Step q m q') :
    q'.paidFor u id = m.paymentOn u id ++ q.paidFor u id := by
  cases hs with
  | joinNew hw hopen hc hsb hso =>
    exact paidFor_join hC hw hopen rfl rfl rfl
  | joinOld hw hopen hc hsb hso hcsb hcso =>
    have hun := hC.not_marked hw (.inl hopen) _ hc
    exact paidFor_join hC hw hopen rfl rfl hun
  | closeEmpty hw hopen => exact paidFor_advance hC hS hw hopen _ _ _
  | close hw hopen => exact paidFor_advance hC hS hw hopen _ _ _
  | mature hw hun hr =>
    rename_i i r w
    by_cases hid : id = i
    · subst hid
      have hnot := hC.not_marked (u := u) hw (.inr hun)
      rw [paidFor_unclaimed (q := q) hnot]
      exact paidFor_unclaimed hnot
    · refine paidFor_congr rfl ?_
      rw [Keymap.lookup_put, if_neg hid]
  | pay hw hm hc hu hp hsc =>
    rename_i v i p sc w c
    have hworth : ∀ d, worth (w.paying sc) d = worth w d := fun d =>
      worth_congr UnbondWindow.scrtOwed_paying UnbondWindow.payable_paying
    -- the claim that is paid, another claim against its window, and the rest
    by_cases hid : id = i
    · subst hid
      by_cases hv : v = u
      · subst hv
        have hbefore : q.paidFor v id = [] := paidFor_unclaimed fun d hd => by
          rw [hc] at hd; cases hd; exact hu
        have hwc : worth w { c with claimed := true } = worth w c := rfl
        rw [hbefore]
        simp [paidFor, Move.paymentOn, hworth, hwc, hp]
      · have hne : (u, id) ≠ (v, id) := by simp [Ne.symm hv]
        simp only [paidFor, Keymap.lookup_put, if_neg hne, if_true, Move.paymentOn, hv, false_and,
          if_false, List.nil_append, hw]
        rcases q.claims.lookup (u, id) with _ | d <;> simp [hworth]
    · have hne : (u, id) ≠ (v, i) := by simp [hid]
      have hnone : (Move.pay v i p).paymentOn u id = [] := if_neg fun he => hid he.2.symm
      rw [hnone, List.nil_append]
      refine paidFor_congr ?_ ?_
      · rw [Keymap.lookup_put, if_neg hne]
      · rw [Keymap.lookup_put, if_neg hid]

/-- **A whole history**: each claim has been paid its worth once if it is marked, and not at
all if it is not. -/
theorem paymentsOn_eq {q₀ : Queue} {hist : List Move} (hS : q₀.Shape) (hC : q₀.Claims)
    (h0 : q₀.paidFor u id = []) (hr : Run Step q₀ hist q) :
    q.Shape ∧ q.Claims ∧ paymentsOn u id hist = q.paidFor u id := by
  induction hr with
  | nil => exact ⟨hS, hC, h0.symm⟩
  | cons _ hs ih =>
    obtain ⟨hS', hC', he⟩ := ih
    refine ⟨hS'.step hs, hC'.step hS' hs, ?_⟩
    rw [hs.paidFor_eq hS' hC', ← he]
    rfl

end Queue

end LstCore
