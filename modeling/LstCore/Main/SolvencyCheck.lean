import LstCore.Proof.Math
import LstCore.Proof.Staking
import LstCore.Spec.Keeper

/-!
# What the solvency check sees

The contract's answer carries figures that have been cut off at zero twice: what is uncommitted,
after the matured windows, and the assets the rate is made of, after everything promised. The
check multiplies the rate out again, so it compares the assets with what was derived from them,
and never finds anything wrong (`checkSolvency_ok`).
-/

namespace LstCore

open Lib

variable {deps : Deps} {env : Env} {st : Storage} {answer : StateResponse} {balance : Uint128}

/-- What the contract has is less than what it owes the people who are leaving. -/
def Insolvent (st : Storage) (balance : Uint128) : Prop :=
  st.totals.totalBonded.val + st.totals.pendingRewards.val + balance.val <
    st.totals.scrtOwedOpen.val + st.totals.scrtOwedMatured.val

instance (st : Storage) (balance : Uint128) : Decidable (Insolvent st balance) :=
  inferInstanceAs (Decidable (_ < _))

/-- The figures of an answer. -/
structure Answered (st : Storage) (balance : Uint128) (answer : StateResponse) : Prop where
  bonded : answer.totalBonded = st.totals.totalBonded
  pending : answer.pendingRewards = st.totals.pendingRewards
  liquid : answer.liquidUnallocated.val = balance.val - st.totals.scrtOwedMatured.val
  supply : answer.totalSupply = st.totals.totalSupply
  rate : answer.exchangeRate.val = if st.totals.totalSupply = 0 then rateScale
    else (st.totals.totalBonded.val + st.totals.pendingRewards.val + balance.val -
      (st.totals.scrtOwedOpen.val + st.totals.scrtOwedMatured.val)) * rateScale /
        st.totals.totalSupply.val

theorem queryState_ok (h : queryState deps env st = .ok answer) : ∃ balance,
    deps.queryBalance env.contract.address st.config.bondedDenom = .ok balance ∧
      Answered st balance answer := by
  unfold queryState at h
  simp only [bind_eq_ok, poolTotals, liftStd_eq_ok, TotalsCache.owedBacked, add_eq_ok,
    pure_eq_ok] at h
  obtain ⟨pool, ⟨balance, hb, owed, ho, rfl⟩, rate, hr, total, -, rfl⟩ := h
  refine ⟨balance, hb, rfl, rfl, ?_, rfl, ?_⟩
  · simp only [Word.val_satSub, Word.val_zero, Nat.sub_zero]
  · rw [exchangeRate_val hr]
    simp only [PoolTotals.net, Word.val_satSub, Word.val_zero, Nat.sub_zero, ho]

/-- A rate multiplied out again is worth no more than the assets it was made of. -/
theorem rate_worth_le (assets supply : ℕ) :
    supply * (assets * rateScale / supply) / rateScale ≤ assets := by
  calc supply * (assets * rateScale / supply) / rateScale
      ≤ assets * rateScale / rateScale := Nat.div_le_div_right (Nat.mul_div_le _ _)
    _ = assets := Nat.mul_div_cancel _ (by decide)

/-- **The check passes whatever the contract answers.** -/
theorem checkSolvency_ok (h : queryState deps env st = .ok answer) :
    (Keeper.checkSolvency answer).severity = .ok := by
  obtain ⟨balance, -, hans⟩ := queryState_ok h
  have hworth : answer.totalSupply.val * answer.exchangeRate.val / rateScale ≤
      answer.totalBonded.val + answer.pendingRewards.val + answer.liquidUnallocated.val := by
    rw [hans.supply, hans.rate, hans.bonded, hans.pending, hans.liquid]
    split
    · rename_i hz
      simp [hz]
    · -- what is promised to open windows comes off the assets of the rate only
      refine (rate_worth_le _ _).trans ?_
      omega
  unfold Keeper.checkSolvency
  dsimp only
  rw [if_pos hworth]

/-- Where the contract is insolvent, its answer values the outstanding shares at nothing. -/
theorem Answered.worth_zero (hans : Answered st balance answer) (hi : Insolvent st balance) :
    answer.totalSupply.val * answer.exchangeRate.val = 0 := by
  unfold Insolvent at hi
  rw [hans.supply, hans.rate]
  split
  · rename_i hz
    simp [hz]
  · rw [Nat.sub_eq_zero_of_le hi.le, Nat.zero_mul, Nat.zero_div, Nat.mul_zero]

/-- **The check never sees insolvency.** In every state in which the contract owes the people who
are leaving more than it has, what it reports to be owed to holders is nothing, and the check
does not alert. -/
theorem insolvency_unseen
    (hb : deps.queryBalance env.contract.address st.config.bondedDenom = .ok balance)
    (hi : Insolvent st balance) (h : queryState deps env st = .ok answer) :
    (Keeper.checkSolvency answer).severity ≠ .alert ∧
      answer.totalSupply.val * answer.exchangeRate.val / rateScale = 0 := by
  obtain ⟨b, hb', hans⟩ := queryState_ok h
  rw [hb, Except.ok.injEq] at hb'
  subst hb'
  refine ⟨?_, by rw [hans.worth_zero hi, Nat.zero_div]⟩
  rw [checkSolvency_ok h]
  decide

/-! ## A slashing after the withdrawals were promised -/

namespace Chain

/-- Everything but the seed is to be withdrawn, and one validator loses a twentieth. -/
def devPromised : List ChainEvent := [devSeed, devEnter "user" (Uint128.new 1000000000) .deposit,
  devSend "user" (Uint128.new 1000000000), .slash "validatortwo" (Uint128.new 50000000),
  devEnter "keeper" 0 (.sync none)]

theorem devPromised_insolvent : (devChain.replay devPromised).bind (fun s =>
    (queryState (s.1.deps (devView 0 [])) s.1.env s.1.store).toOption.map fun _ =>
      decide (Insolvent s.1.store s.1.balance)) = some true := by
  decide +kernel

theorem deps_balance (c : Chain) (view : Deps) :
    (c.deps view).queryBalance c.env.contract.address c.store.config.bondedDenom = .ok c.balance :=
  if_pos ⟨rfl, rfl⟩

/-- The contract owes 1000 SCRT and has 960. -/
theorem insolvency_unseen_slashed : ∃ (c : Chain) (answer : StateResponse), c.Reaches ∧
    Insolvent c.store c.balance ∧ queryState (c.deps (devView 0 [])) c.env c.store = .ok answer ∧
    (Keeper.checkSolvency answer).severity ≠ .alert := by
  obtain ⟨⟨c, h⟩, hr, hs⟩ := Option.bind_eq_some_iff.1 devPromised_insolvent
  obtain ⟨answer, hq, hs⟩ := Option.map_eq_some_iff.1 hs
  have hi := of_decide_eq_true hs
  exact ⟨c, answer, ⟨devChain, h, devChain_fresh, replay_ok hr⟩, hi, toOption_eq_some.1 hq,
    (insolvency_unseen (c.deps_balance _) hi (toOption_eq_some.1 hq)).1⟩

/-- The check does not report every insolvency that the contract can reach. -/
theorem insolvency_missed : ¬ ∀ (c : Chain) (answer : StateResponse), c.Reaches →
    Insolvent c.store c.balance → queryState (c.deps (devView 0 [])) c.env c.store = .ok answer →
    (Keeper.checkSolvency answer).severity = .alert := by
  obtain ⟨⟨c, h⟩, hr, hs⟩ := Option.bind_eq_some_iff.1 devPromised_insolvent
  obtain ⟨answer, hq, hs⟩ := Option.map_eq_some_iff.1 hs
  intro hall
  have halert := hall c answer ⟨devChain, h, devChain_fresh, replay_ok hr⟩ (of_decide_eq_true hs)
    (toOption_eq_some.1 hq)
  rw [checkSolvency_ok (toOption_eq_some.1 hq)] at halert
  cases halert

end Chain

end LstCore
