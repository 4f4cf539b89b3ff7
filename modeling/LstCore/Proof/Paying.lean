import Mathlib.Algebra.BigOperators.Group.Finset.Basic
import LstCore.Proof.Closing

/-!
# Paying claims

What the claim loop does over any list of window ids, with repetitions, unknown ids and
windows in any state.

* `Queue.dueTo`: what an account can be paid for a window right now; `Queue.blocked`: a
  claim of its that aborts the whole call.
* `claimStep_free`, `claimStep_blocked`: one turn of the loop.
* `claimLoop_free`: a loop that meets no blocked claim pays each window named once.
* `claimLoop_blocked`: a loop that meets one fails.
-/

namespace LstCore

open Lib

variable {now : ℕ} {u : Addr} {id i : ℕ} {q q' : Queue} {w : UnbondWindow} {c : ClaimRecord}

namespace Queue

/-- What an account can be paid for a window: the worth of its unpaid claim once the
window is matured. -/
def dueTo (q : Queue) (u : Addr) (id : ℕ) : ℕ :=
  match q.claims.lookup (u, id), q.windows.lookup id with
  | some c, some w => if c.claimed = false ∧ w.state = .matured then worth w c else 0
  | _, _ => 0

/-- An unpaid claim against a window still in flight. -/
def blocked (q : Queue) (u : Addr) (id : ℕ) : Prop :=
  ∃ c w, q.claims.lookup (u, id) = some c ∧ c.claimed = false ∧
    q.windows.lookup id = some w ∧ w.state = .unbonding

theorem dueTo_of_matured (hc : q.claims.lookup (u, id) = some c) (hu : c.claimed = false)
    (hw : q.windows.lookup id = some w) (hs : w.state = .matured) : q.dueTo u id = worth w c := by
  simp [dueTo, hc, hw, hu, hs]

theorem dueTo_of_none (hc : q.claims.lookup (u, id) = none) : q.dueTo u id = 0 := by
  simp [dueTo, hc]

/-- Paying a claim leaves nothing due on it, and every other claim as it was. -/
theorem dueTo_pay {p : Uint128} (hs : Step q (.pay u id p) q') :
    q'.dueTo u id = 0 ∧ ∀ i, i ≠ id → q'.dueTo u i = q.dueTo u i := by
  obtain ⟨w, c, sc, hw, hm, hc, hu, hp, hsc, ho, hwin, hcl⟩ := hs.pay_windows
  constructor
  · simp [dueTo, hwin, hcl]
  · intro i hi
    unfold dueTo
    rw [hwin, hcl, Keymap.lookup_put, Keymap.lookup_put, if_neg (by simp [hi]), if_neg hi]

theorem blocked_pay {p : Uint128} (hs : Step q (.pay u id p) q') (h : q'.blocked u i) :
    q.blocked u i := by
  obtain ⟨w, c, sc, hw, hm, hc, hu, hp, hsc, ho, hwin, hcl⟩ := hs.pay_windows
  obtain ⟨d, v, hd, hdu, hv, hvs⟩ := h
  rw [hcl] at hd
  rw [hwin] at hv
  rcases Keymap.put_cases hd with ⟨-, rfl⟩ | ⟨hne, hd⟩
  · simp at hdu
  · rcases Keymap.put_cases hv with ⟨rfl, -⟩ | ⟨-, hv⟩
    · exact absurd rfl hne
    · exact ⟨d, v, hd, hdu, hv, hvs⟩

/-- A payment is at most what its window still owes. -/
theorem dueTo_le (hC : q.Claims) (u : Addr) (id : ℕ) : q.dueTo u id ≤ q.maturedOwed := by
  unfold dueTo
  rcases hc : q.claims.lookup (u, id) with _ | c
  · simp
  · rcases hw : q.windows.lookup id with _ | w
    · simp
    · simp only
      split
      · rename_i h
        obtain ⟨hu, hs⟩ := h
        have h1 := hC.worth_le_outstanding hw hc hu
        have h2 := stillDue_le hw
        simp only [stillDue, hs, if_true, UnbondWindow.outstanding, Word.val_satSub] at h2
        omega
      · exact Nat.zero_le _

end Queue

/-- **A payout is the share of the claim**, when it is computed at all. -/
theorem payoutForClaim_eq_ok {o p : Uint128} : Windows.payoutForClaim w o = .ok p ↔
    p.val = share o.val w.payable.val w.scrtOwed.val := by
  unfold Windows.payoutForClaim share
  show (if w.payable = w.scrtOwed then _ else _) = _ ↔ _
  simp only [Word.ext_iff (x := w.payable), Word.eq_zero_iff]
  split
  · simp [Word.ext_iff, eq_comm]
  · split
    · simp [Word.ext_iff, eq_comm]
    · rename_i hz
      simp [multiplyRatio_eq_ok, hz, show w.scrtRealised.getD w.scrtOwed = w.payable from rfl]

/-! ## One turn -/

/-- The queue of a storage with the loop's progress in it. -/
def ClaimAcc.queue (acc : ClaimAcc) (q : Queue) : Queue :=
  { q with
    windows := acc.windows
    claims := acc.claims
    activeWindows := q.activeWindows.filter fun id => id ∉ acc.settled }

/-- A blocked claim aborts the call. -/
theorem claimStep_blocked (now : ℕ) {acc : ClaimAcc} (h : (acc.queue q).blocked u id) :
    ∃ e, claimStep now u acc id = .error (.err e) := by
  obtain ⟨c, w, hc, hu, hw, hs⟩ := h
  refine ⟨.windowNotMatured id w.maturesAt now, ?_⟩
  have hc' : acc.claims.lookup (u, id) = some c := hc
  have hw' : acc.windows.lookup id = some w := hw
  unfold claimStep
  simp only [hc', hu, Bool.false_eq_true, if_false, loadWindow, hw', orErr, ok_bind, hs]

/-- **The turn that pays**: a claim that is open on a matured window. -/
theorem claimStep_pays (now : ℕ) {acc : ClaimAcc} {w : UnbondWindow} {c : ClaimRecord}
    (hC : (acc.queue q).Claims) (hfit : acc.paid.val + (acc.queue q).maturedOwed < 2 ^ 128)
    (hc : acc.claims.lookup (u, id) = some c) (hu : c.claimed = false)
    (hw : acc.windows.lookup id = some w) (hs : w.state = .matured) :
    ∃ acc' p, claimStep now u acc id = .ok acc' ∧ acc'.paid.val = acc.paid.val + p.val ∧
      p.val = (acc.queue q).dueTo u id ∧ Queue.Step (acc.queue q) (.pay u id p) (acc'.queue q) := by
  have hwq : (acc.queue q).windows.lookup id = some w := hw
  have hdue : (acc.queue q).dueTo u id = worth w c := Queue.dueTo_of_matured hc hu hwq hs
  -- what is due fits, since it is part of what is owed
  have hle := Queue.dueTo_le hC u id
  have hroom := hC.worth_le_outstanding hwq hc hu
  have hpay := w.payable.isLt
  obtain ⟨p, hp⟩ : ∃ p : Uint128, p.val = worth w c := ⟨⟨worth w c, by omega⟩, rfl⟩
  obtain ⟨sc, hsc⟩ := Word.exists_add? (a := w.scrtClaimed) (b := p) (by omega)
  obtain ⟨pd, hpd⟩ := Word.exists_add? (a := acc.paid) (b := p) (by omega)
  rw [Word.add?_eq_some] at hsc hpd
  refine ⟨⟨acc.windows.insert id (w.paying sc),
    acc.claims.insert (u, id) { c with claimed := true }, pd,
    if Windows.isDrained { w with scrtClaimed := sc } then acc.settled ++ [id] else acc.settled⟩,
    p, ?_, hpd, by rw [hp, hdue], ?_⟩
  · have hload : loadWindow acc.windows id = .ok w := loadWindow_eq_ok.2 hw
    unfold claimStep
    simp only [hc, hu, Bool.false_eq_true, if_false, hload, ok_bind, hs]
    rw [payoutForClaim_eq_ok.2 hp, ok_bind, add_eq_ok.2 hsc, ok_bind, add_eq_ok.2 hpd, ok_bind]
    simp only [UnbondWindow.paying, pure, Except.pure, hs]
  · have hstep := Queue.Step.pay (q := acc.queue q) hwq hs hc hu hp hsc
    -- the window leaves the active list exactly when the payment settles it
    have hst : (w.paying sc).state = .settled ↔
        Windows.isDrained { w with scrtClaimed := sc } = true := by
      rw [UnbondWindow.state_paying, hs, Windows.isDrained, decide_eq_true_eq]
      show _ ↔ w.payable ≤ sc
      split <;> simp [*]
    by_cases hd : Windows.isDrained { w with scrtClaimed := sc } = true
    · rw [if_pos (hst.2 hd)] at hstep
      simp only [hd, if_true]
      convert hstep using 1
      simp [ClaimAcc.queue, List.filter_filter, and_comm]
    · rw [if_neg fun hse => hd (hst.1 hse)] at hstep
      simp only [hd]
      exact hstep

/-- **A turn that is not blocked** pays what is due on the window, as a move of the queue,
or leaves everything alone when nothing is. -/
theorem claimStep_free (now : ℕ) {acc : ClaimAcc} (hC : (acc.queue q).Claims)
    (hfit : acc.paid.val + (acc.queue q).maturedOwed < 2 ^ 128)
    (h : ¬ (acc.queue q).blocked u id) :
    ∃ acc', claimStep now u acc id = .ok acc' ∧
      acc'.paid.val = acc.paid.val + (acc.queue q).dueTo u id ∧
      ((acc' = acc ∧ (acc.queue q).dueTo u id = 0) ∨
        ∃ p : Uint128, p.val = (acc.queue q).dueTo u id ∧
          Queue.Step (acc.queue q) (.pay u id p) (acc'.queue q)) := by
  -- no claim, or one paid before: the turn passes over the window
  rcases hc : acc.claims.lookup (u, id) with _ | c
  · have hz : (acc.queue q).dueTo u id = 0 := by simp [Queue.dueTo, ClaimAcc.queue, hc]
    exact ⟨acc, by simp [claimStep, hc], by rw [hz]; rfl, .inl ⟨rfl, hz⟩⟩
  by_cases hu : c.claimed = true
  · have hz : (acc.queue q).dueTo u id = 0 := by
      simp only [Queue.dueTo, ClaimAcc.queue, hc]
      split <;> simp_all
    exact ⟨acc, by simp [claimStep, hc, hu], by rw [hz]; rfl, .inl ⟨rfl, hz⟩⟩
  rw [Bool.not_eq_true] at hu
  obtain ⟨w, hw⟩ := hC.window u id c hc
  have hw' : acc.windows.lookup id = some w := hw
  by_cases hs : w.state = .matured
  · obtain ⟨acc', p, hok, hpaid, hp, hstep⟩ := claimStep_pays now hC hfit hc hu hw' hs
    exact ⟨acc', hok, hp ▸ hpaid, .inr ⟨p, hp, hstep⟩⟩
  · -- open or settled: the turn passes over the window
    have hz : (acc.queue q).dueTo u id = 0 := by
      simp only [Queue.dueTo, ClaimAcc.queue, hc, hw']
      simp [hs]
    refine ⟨acc, ?_, by rw [hz]; rfl, .inl ⟨rfl, hz⟩⟩
    have hun : w.state ≠ .unbonding := fun hun => h ⟨c, w, hc, hu, hw, hun⟩
    have hload : loadWindow acc.windows id = .ok w := loadWindow_eq_ok.2 hw'
    unfold claimStep
    simp only [hc, hu, Bool.false_eq_true, if_false, hload, ok_bind]
    rcases hst : w.state with _ | _ | _ | _ <;> simp_all [pure, Except.pure]

/-! ## The loop -/

/-- What a move pays an account. -/
def Move.payoutTo (u : Addr) : Move → ℕ
  | .pay v _ p => if v = u then p.val else 0
  | _ => 0

/-- A payment. -/
def Move.isPay : Move → Prop
  | .pay _ _ _ => True
  | _ => False

/-- What a history pays an account. -/
def paidTo (u : Addr) (hist : List Move) : ℕ := (hist.map (Move.payoutTo u)).sum

@[simp] theorem paidTo_append (h h' : List Move) : paidTo u (h ++ h') = paidTo u h + paidTo u h' := by
  simp [paidTo]

theorem paidTo_pay {v : Addr} {p : Uint128} : paidTo u [.pay v id p] = if v = u then p.val else 0 := by
  simp [paidTo, Move.payoutTo]

/-- **A loop that meets no blocked claim** pays what is due on each window named, once. -/
theorem claimLoop_free (now : ℕ) (u : Addr) (q : Queue) :
    ∀ (ids : List ℕ) (acc : ClaimAcc), (acc.queue q).Shape →
    (acc.queue q).Claims → acc.paid.val + (acc.queue q).maturedOwed < 2 ^ 128 →
    (∀ id ∈ ids, ¬ (acc.queue q).blocked u id) →
    ∃ acc' hist, ids.foldlM (claimStep now u) acc = .ok acc' ∧
      acc'.paid.val = acc.paid.val + ∑ id ∈ ids.toFinset, (acc.queue q).dueTo u id ∧
      acc'.paid.val + (acc'.queue q).maturedOwed = acc.paid.val + (acc.queue q).maturedOwed ∧
      (acc'.queue q).openOwed = (acc.queue q).openOwed ∧
      (acc'.queue q).unbondingOwed = (acc.queue q).unbondingOwed ∧
      Run Queue.Step (acc.queue q) hist (acc'.queue q) ∧
      acc'.paid.val = acc.paid.val + paidTo u hist ∧ (∀ v ≠ u, paidTo v hist = 0) ∧
      ∀ m ∈ hist, m.isPay := by
  intro ids
  induction ids with
  | nil =>
    intro acc _ _ _ _
    exact ⟨acc, [], rfl, by simp, rfl, rfl, rfl, .nil, rfl, fun _ _ => rfl, by simp⟩
  | cons id ids ih =>
    intro acc hS hC hfit hb
    obtain ⟨mid, hmid, hpaid, hcase⟩ := claimStep_free now hC hfit (hb id List.mem_cons_self)
    rw [List.foldlM_cons, hmid, ok_bind, List.toFinset_cons]
    rcases hcase with ⟨rfl, hz⟩ | ⟨p, hp, hstep⟩
    · -- nothing is due on the window, whether or not it is named again
      obtain ⟨acc', hist, hok, hsum, hrest⟩ := ih mid hS hC hfit fun i hi =>
        hb i (List.mem_cons_of_mem _ hi)
      exact ⟨acc', hist, hok, by rw [hsum, Finset.sum_insert_of_eq_zero_if_notMem fun _ => hz], hrest⟩
    · obtain ⟨hzero, hsame⟩ := Queue.dueTo_pay hstep
      obtain ⟨ho, hu, hm⟩ := Queue.owed_pay hS hC hstep
      have hbal : mid.paid.val + (mid.queue q).maturedOwed =
          acc.paid.val + (acc.queue q).maturedOwed := by omega
      obtain ⟨acc', hist, hok, hsum, hcons, ho', hu', hrun, hto, hother, hpay⟩ :=
        ih mid (hS.step hstep) (hC.step hS hstep) (hbal ▸ hfit)
          fun i hi hbl => hb i (List.mem_cons_of_mem _ hi) (Queue.blocked_pay hstep hbl)
      refine ⟨acc', hist ++ [.pay u id p], hok, ?_, hcons.trans hbal, ho'.trans ho, hu'.trans hu,
        (Run.single hstep).trans hrun, ?_, ?_, ?_⟩
      · -- the window just paid counts once, and for nothing from here on
        have hrest : ∑ i ∈ ids.toFinset, (mid.queue q).dueTo u i =
            ∑ i ∈ ids.toFinset.erase id, (acc.queue q).dueTo u i := by
          rw [← Finset.sum_erase _ hzero]
          exact Finset.sum_congr rfl fun i hi => hsame i (Finset.ne_of_mem_erase hi)
        rw [hsum, hpaid, hrest, Nat.add_assoc, ← Finset.erase_insert_eq_erase,
          Finset.add_sum_erase _ _ (Finset.mem_insert_self _ _)]
      · rw [paidTo_append, paidTo_pay, if_pos rfl, hto, hpaid]
        omega
      · intro v hv
        rw [paidTo_append, paidTo_pay, if_neg (Ne.symm hv), hother v hv]
      · intro m hm
        rcases List.mem_append.1 hm with hm | hm
        · exact hpay m hm
        · rw [List.mem_singleton] at hm
          subst hm
          trivial

/-- **A loop that meets a blocked claim fails.** -/
theorem claimLoop_blocked (now : ℕ) (u : Addr) (q : Queue) :
    ∀ (ids : List ℕ) (acc : ClaimAcc), (acc.queue q).Shape →
    (acc.queue q).Claims → acc.paid.val + (acc.queue q).maturedOwed < 2 ^ 128 →
    (∃ id ∈ ids, (acc.queue q).blocked u id) →
    ∃ e, ids.foldlM (claimStep now u) acc = .error (.err e) := by
  intro ids
  induction ids with
  | nil => intro acc _ _ _ h; simp at h
  | cons id ids ih =>
    intro acc hS hC hfit h
    rw [List.foldlM_cons]
    by_cases hid : (acc.queue q).blocked u id
    · obtain ⟨e, he⟩ := claimStep_blocked now hid
      exact ⟨e, by rw [he]; rfl⟩
    · obtain ⟨j, hj, hbl⟩ := h
      have hj' : j ∈ ids := by
        rcases List.mem_cons.1 hj with rfl | hj
        · exact absurd hbl hid
        · exact hj
      obtain ⟨mid, hmid, hpaid, hcase⟩ := claimStep_free now hC hfit hid
      rw [hmid, ok_bind]
      rcases hcase with ⟨rfl, -⟩ | ⟨p, hp, hstep⟩
      · exact ih mid hS hC hfit ⟨j, hj', hbl⟩
      · obtain ⟨-, -, hm⟩ := Queue.owed_pay hS hC hstep
        refine ih mid (hS.step hstep) (hC.step hS hstep) (by omega) ⟨j, hj', ?_⟩
        -- a payment to a matured window does not unblock one in flight
        obtain ⟨w, c, sc, hw, hms, hc, hu, -, -, -, hwin, hcl⟩ := hstep.pay_windows
        obtain ⟨d, v, hd, hdu, hv, hvs⟩ := hbl
        have hne : j ≠ id := fun he => hid (he ▸ ⟨d, v, hd, hdu, hv, hvs⟩)
        refine ⟨d, v, ?_, hdu, ?_, hvs⟩
        · rw [hcl, Keymap.lookup_put, if_neg (by simp [hne]), hd]
        · rw [hwin, Keymap.lookup_put, if_neg hne, hv]

end LstCore
