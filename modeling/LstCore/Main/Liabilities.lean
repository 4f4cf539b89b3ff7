import LstCore.Proof.World

/-!
# The liability ledger

In every reachable storage the three cached liabilities are what the windows say, and
nothing is lost to a saturating subtraction on the way: not when the open window closes,
not when windows are marked matured, not when claims are paid (`liability_ledger`).
-/

namespace LstCore

open Lib

variable {st st₁ : Storage}

/-- No subtraction on a cached liability saturates while a call runs on the storage. -/
structure LiabilitiesFit (st : Storage) : Prop where
  close : ∀ st₁ w, ClosesFrom st st₁ → st₁.windows.lookup st₁.openWindow = some w →
    w.scrtOwed ≤ st₁.totals.scrtOwedOpen
  mature : ∀ now limit balance spokenFor acc,
    st.activeWindows.foldlM (matureStep now limit balance) ⟨st.windows, spokenFor, [], [], 0, 0⟩ =
      .ok acc → acc.promisedTotal ≤ st.totals.scrtOwedUnbonding
  pay : ∀ deps env limit st₁ marked now u (ids : List ℕ) acc,
    matureDueWindows deps env limit st = .ok (st₁, marked) →
    ids.foldlM (claimStep now u) ⟨st₁.windows, st₁.claims, 0, []⟩ = .ok acc →
    acc.paid ≤ st₁.totals.scrtOwedMatured

/-- The windows a loop takes owe at most what is booked for the windows in flight. -/
theorem Booked.promised_le (hB : Booked st) {now limit : ℕ} {balance spokenFor : Uint128}
    {acc : MatureAcc} (h : st.activeWindows.foldlM (matureStep now limit balance)
      ⟨st.windows, spokenFor, [], [], 0, 0⟩ = .ok acc) :
    acc.promisedTotal ≤ st.totals.scrtOwedUnbonding := by
  obtain ⟨rets, hl⟩ := matureLoop_ok h hB.shape.nodup fun id hid => hB.shape.lookup_active hid
  have hp := hl.promised
  rw [hl.due, Word.val_zero, Nat.zero_add] at hp
  rw [Word.le_def, hB.owedUnbonding, hp]
  exact (((List.take_sublist _ _).map _).sum_le_sum fun _ _ => Nat.zero_le _).trans
    (sum_due_le hB.shape now)

theorem Booked.liabilitiesFit (hB : Booked st) : LiabilitiesFit st where
  close st₁ w hc hw := by
    rw [Word.le_def, (hB.closesFrom hc).open_owed hw]
  mature now limit balance spokenFor acc h := hB.promised_le h
  pay deps env limit st₁ marked now u ids acc hm h := by
    obtain ⟨balance, rets, -, hM, -⟩ := matureDueWindows_ok hB hm
    obtain ⟨hist, hP⟩ := claimLoop_inv env (hB.marking hM) h
    exact hP.owedMatured

/-- **The liability ledger.** In every reachable storage `scrtOwedOpen` is what the open
window owes, `scrtOwedUnbonding` what the windows in flight owe together, `scrtOwedMatured`
what the matured windows have still to pay of what came back, and no subtraction on them
saturates. -/
theorem liability_ledger (h : Reachable st) :
    (∃ w, st.windows.lookup st.openWindow = some w ∧
      st.totals.scrtOwedOpen = w.scrtOwed) ∧
    st.totals.scrtOwedUnbonding.val =
      st.windows.total (fun _ w => if w.state = .unbonding then w.scrtOwed.val else 0) ∧
    (∀ id w, st.windows.lookup id = some w → w.state = .matured →
      ∃ r, w.scrtRealised = some r ∧ w.scrtClaimed ≤ r) ∧
    st.totals.scrtOwedMatured.val = st.windows.total (fun _ w =>
      if w.state = .matured then (w.scrtRealised.getD 0).val - w.scrtClaimed.val else 0) ∧
    LiabilitiesFit st := by
  have hB := h.booked
  have hreal : ∀ id w, st.windows.lookup id = some w → w.state = .matured →
      w.scrtRealised = some w.payable := fun id w hw hs =>
    ((hB.shape.ok id w hw).realised_some (.inl hs)).1
  refine ⟨?_, hB.owedUnbonding, fun id w hw hs => ⟨w.payable, hreal id w hw hs, ?_⟩, ?_,
    hB.liabilitiesFit⟩
  · obtain ⟨w, hw, -⟩ := hB.shape.exists_open
    exact ⟨w, hw, Word.ext (hB.open_owed hw)⟩
  · have := hB.claims.paid_add_due_le hw
    rw [Word.le_def]
    omega
  · rw [hB.owedMatured]
    refine Keymap.total_congr fun id w hw => ?_
    by_cases hs : w.state = .matured
    · simp [hs, hreal id w hw hs, UnbondWindow.outstanding]
    · simp [hs]

set_option maxRecDepth 10000 in
theorem liability_ledger_closed : ∃ st, (devClose.foldlM World.step devWorld).map (·.store) = some st ∧
    st.totals.scrtOwedUnbonding = Uint128.new 40000000 ∧
    (∃ w, st.windows.lookup st.openWindow = some w ∧
      st.totals.scrtOwedOpen = w.scrtOwed) ∧
    st.totals.scrtOwedUnbonding.val =
      st.windows.total (fun _ w => if w.state = .unbonding then w.scrtOwed.val else 0) ∧
    (∀ id w, st.windows.lookup id = some w → w.state = .matured →
      ∃ r, w.scrtRealised = some r ∧ w.scrtClaimed ≤ r) ∧
    st.totals.scrtOwedMatured.val = st.windows.total (fun _ w =>
      if w.state = .matured then (w.scrtRealised.getD 0).val - w.scrtClaimed.val else 0) ∧
    LiabilitiesFit st := by
  have hrun : (devClose.foldlM World.step devWorld).map (·.store.totals.scrtOwedUnbonding) =
      some (Uint128.new 40000000) := by decide +kernel
  obtain ⟨w, hw, ht⟩ := Option.map_eq_some_iff.1 hrun
  exact ⟨w.store, by rw [hw]; rfl, ht, liability_ledger (World.replay_reachable devWorld_fresh hw)⟩

end LstCore
