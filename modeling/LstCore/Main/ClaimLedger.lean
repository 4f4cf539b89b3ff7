import LstCore.Queue.Payments
import LstCore.Proof.World

/-!
# The claim ledger

In every reachable storage the claims against a window account for all of it, before and
after it comes back, and over a whole history each claim has been paid at most once,
whatever ids the claims of it named (`claim_ledger`).
-/

namespace LstCore

open Lib

variable {st₀ st : Storage} {id : ℕ} {w : UnbondWindow}

/-- The payouts of the claims against a window that has come back: each is computed, they
are paid for the claims that are marked, and they fit in what came back. -/
structure PayoutsFit (st : Storage) (id : ℕ) (w : UnbondWindow) (r : Uint128) : Prop where
  payout : ∀ u c, st.claims.lookup (u, id) = some c →
    ∃ p, Windows.payoutForClaim w c.scrtOwed = .ok p ∧ p.val = worth w c
  claimed : w.scrtClaimed.val = st.queue.paidOn id w
  le_realised : w.scrtClaimed ≤ r
  due : w.scrtClaimed.val + st.queue.dueOn id w ≤ r.val

theorem Booked.payoutsFit (hB : Booked st) (hw : st.windows.lookup id = some w) :
    PayoutsFit st id w w.payable := by
  have hdue := hB.claims.paid_add_due_le hw
  refine ⟨fun u c hc => ?_, (hB.claims.paid id w hw).symm, ?_, hdue⟩
  · have hle := (Queue.le_claimTotal (f := worth w) (show st.queue.claims.lookup (u, id) = some c
      from hc)).trans (hB.claims.sum_worth_le hw)
    have := w.payable.isLt
    exact ⟨⟨worth w c, by omega⟩, payoutForClaim_eq_ok.2 rfl, rfl⟩
  · rw [Word.le_def]
    omega

/-- **The claim ledger.** After any history of calls, and for every window: the claims
against it add up to what it owes and to the shares it burned; none is marked before it
comes back; and once it has, what it has paid is the sum of the payouts of the claims that
are marked, which together with those still due is at most what came back. An account's
index lists each window it has a claim in exactly once. Over the history, an account has
been sent the payments made on its claims, and on each claim one of its worth if it is
marked, and none otherwise. -/
theorem claim_ledger {h : List (Call × Response)} (hi : Instantiated st₀) (hr : Run Step st₀ h st) :
    (∀ id w, st.windows.lookup id = some w →
      st.queue.claimTotal id (·.scrtOwed.val) = w.scrtOwed.val ∧
      st.queue.claimTotal id (·.sharesBurned.val) = w.sharesBurned.val ∧
      (w.state = .open ∨ w.state = .unbonding →
        ∀ u c, st.claims.lookup (u, id) = some c → c.claimed = false) ∧
      (w.state = .matured ∨ w.state = .settled →
        ∃ r, w.scrtRealised = some r ∧ PayoutsFit st id w r)) ∧
    (∀ u id, (st.claimIndex u).count id = if (st.claims.lookup (u, id)).isSome then 1 else 0) ∧
    ∃ hist, Run Queue.Step st₀.queue hist st.queue ∧
      (∀ u, (h.map fun e => sentTo u e.2.messages).sum = paidTo u hist) ∧
      ∀ u id, paymentsOn u id hist = st.queue.paidFor u id := by
  have hB₀ := hi.booked
  obtain ⟨hB, hist, hrun, hsent⟩ := run_refines hB₀ hr
  refine ⟨fun id w hw => ⟨hB.claims.owed id w hw, hB.claims.burned id w hw, fun hs u c hc =>
      hB.claims.unclaimed u id c w hc hw hs, fun hs => ?_⟩, hB.claims.index,
    hist, hrun, hsent, fun u id => ?_⟩
  · exact ⟨w.payable, ((hB.shape.ok id w hw).realised_some hs).1, hB.payoutsFit hw⟩
  · -- a fresh contract has no claims
    have hnone : st₀.queue.paidFor u id = [] := by
      obtain ⟨deps, env, info, msg, resp, hi⟩ := hi
      obtain ⟨config, -, -, -, -, -, rfl⟩ := instantiate_ok hi
      exact Queue.paidFor_unclaimed fun c hc => by simp [initialStorage, Storage.queue] at hc
    exact (Queue.paymentsOn_eq hB₀.shape hB₀.claims hnone hrun).2.2

set_option maxRecDepth 10000 in
theorem claim_ledger_paid : ∃ st₀ h st, Instantiated st₀ ∧ Run Step st₀ h st ∧
    st.claims.lookup ("user", 0) = some ⟨0, Uint128.new 40000000, Uint128.new 40000000, true⟩ ∧
    (∀ id w, st.windows.lookup id = some w →
      st.queue.claimTotal id (·.scrtOwed.val) = w.scrtOwed.val ∧
      st.queue.claimTotal id (·.sharesBurned.val) = w.sharesBurned.val ∧
      (w.state = .open ∨ w.state = .unbonding →
        ∀ u c, st.claims.lookup (u, id) = some c → c.claimed = false) ∧
      (w.state = .matured ∨ w.state = .settled →
        ∃ r, w.scrtRealised = some r ∧ PayoutsFit st id w r)) ∧
    (∀ u id, (st.claimIndex u).count id = if (st.claims.lookup (u, id)).isSome then 1 else 0) ∧
    ∃ hist, Run Queue.Step st₀.queue hist st.queue ∧
      (∀ u, (h.map fun e => sentTo u e.2.messages).sum = paidTo u hist) ∧
      ∀ u id, paymentsOn u id hist = st.queue.paidFor u id := by
  have hrun : (devClaim.foldlM World.step devWorld).map (·.store.claims.lookup ("user", 0)) =
      some (some ⟨0, Uint128.new 40000000, Uint128.new 40000000, true⟩) := by decide +kernel
  obtain ⟨w, hw, hc⟩ := Option.map_eq_some_iff.1 hrun
  obtain ⟨st₀, h, hi, hr⟩ := World.replay_reachable devWorld_fresh hw
  exact ⟨st₀, h, w.store, hi, hr, hc, claim_ledger hi hr⟩

end LstCore
