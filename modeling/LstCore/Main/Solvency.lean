import LstCore.Proof.Solvent

/-!
# Matured money is in the bank

Whatever is slashed, and in whatever order windows are marked and claims are made, the
contract holds at least what its matured windows have still to pay, so a claim's payment
never fails (`matured_money_in_bank`).
-/

namespace LstCore

open Lib

variable {w : World}

/-- The payment of a claim whose call succeeds goes through. -/
theorem Solvent.claim_runs (hsol : Solvent w) {t : Tx} {ids : Option (List ℕ)} {b : Uint128}
    {store : Storage} {resp : Response} (hmsg : t.msg = .claimMatured ids)
    (hc : w.call t = some (b, store, resp)) : ∃ w', w.tx t = some w' ∧ w'.store = store := by
  obtain ⟨-, u, paid, hm, hle⟩ := hsol.claim hmsg hc
  -- a claim sends one payment, which the balance covers
  obtain ⟨till, hrun⟩ : ∃ till, w.runMessages t.view b resp.messages = some till := by
    have hspend : Till.spend ⟨b, []⟩ paid.val = some ⟨b.satSub paid, []⟩ :=
      spend_eq_some.2 ⟨by simp only [Word.val_satSub]; omega, rfl⟩
    have hamount : amountIn w.store.config.bondedDenom
        [⟨w.store.config.bondedDenom, paid⟩] = paid.val := by simp [amountIn]
    unfold World.runMessages
    rw [hm]
    simp [Till.run, hamount, hspend]
  refine ⟨{ w with
    store := store
    balance := till.balance
    returns := w.fileReturn resp.messages }, ?_, rfl⟩
  unfold World.tx
  simp [hc, hrun]

/-- **Matured money is always in the bank.** In every reachable world, between transactions,
the balance is at least what the matured windows have still to pay together, and the
messages of a claim whose call succeeds go through. -/
theorem matured_money_in_bank (h : World.Reaches World.step w) :
    w.store.windows.total (fun _ v => if v.state = .matured then
      (v.scrtRealised.getD 0).val - v.scrtClaimed.val else 0) ≤ w.balance.val ∧
    ∀ t ids b store resp, t.msg = .claimMatured ids → w.call t = some (b, store, resp) →
      ∃ w', w.tx t = some w' ∧ w'.store = store := by
  have hsol : Solvent w := h.inv (fun _ hf => hf.solvent) fun _ _ _ hP hs => hP.step hs
  refine ⟨?_, fun t ids b store resp hmsg hc => ?_⟩
  · refine le_trans (le_of_eq ?_) hsol.covered
    rw [hsol.booked.owedMatured]
    refine Keymap.total_congr fun id v hv => ?_
    by_cases hs : v.state = .matured
    · have hreal := ((hsol.booked.shape.ok id v hv).realised_some (.inl hs)).1
      rw [if_pos hs, if_pos hs, hreal]
      rfl
    · rw [if_neg hs, if_neg hs]
  · exact hsol.claim_runs hmsg hc

set_option maxRecDepth 10000 in
theorem matured_money_in_bank_returned : ∃ w, devReturned.foldlM World.step devWorld = some w ∧
    w.balance = Uint128.new 40000000 ∧
    w.store.windows.total (fun _ v => if v.state = .matured then
      (v.scrtRealised.getD 0).val - v.scrtClaimed.val else 0) ≤ w.balance.val ∧
    ∀ t ids b store resp, t.msg = .claimMatured ids → w.call t = some (b, store, resp) →
      ∃ w', w.tx t = some w' ∧ w'.store = store := by
  have hrun : (devReturned.foldlM World.step devWorld).map (·.balance) =
      some (Uint128.new 40000000) := by decide +kernel
  obtain ⟨w, hw, hb⟩ := Option.map_eq_some_iff.1 hrun
  exact ⟨w, hw, hb, matured_money_in_bank ⟨_, World.along_replay devWorld_fresh hw⟩⟩

end LstCore
