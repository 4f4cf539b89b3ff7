import LstCore.Proof.Math
import LstCore.Proof.Mirror
import LstCore.Proof.Money

/-!
# What a compound makes of the rate

* `total_harvested`: what the re-read of a page does to the sums over the set.
* `Compounded.fee_val`: the shares of the fee, from the page as re-read.
* `run_restake`, `run_nothing`: what the messages of a compound leave in the balance.
-/

namespace LstCore

open Lib

variable {deps : Deps} {env : Env} {st st' : Storage} {self : Addr} {denom : String}

/-! ## The sweep -/

variable {cursor stop : ℕ} {set : List ValidatorEntry}

theorem total_harvested (hc : st.syncCursor ≤ stop) :
    total (·.bonded) (harvestedSet deps env st stop) +
        total (·.bonded) (pageOf st.syncCursor stop st.validators) =
      total (·.bonded) st.validators + total (·.bonded)
        ((pageOf st.syncCursor stop st.validators).map (harvestEntry deps env.contract.address)) ∧
    total (·.pendingRewards) (harvestedSet deps env st stop) +
        total (·.pendingRewards) (pageOf st.syncCursor stop st.validators) =
      total (·.pendingRewards) st.validators := by
  have hz : total (·.pendingRewards)
      ((pageOf st.syncCursor stop st.validators).map (harvestEntry deps env.contract.address)) = 0 := by
    simp [total, Function.comp_def, harvestEntry]
  refine ⟨total_withPage hc, ?_⟩
  have hp := @total_withPage st.validators _ _
    ((pageOf st.syncCursor stop st.validators).map (harvestEntry deps env.contract.address))
    (·.pendingRewards) hc
  rw [hz, Nat.add_zero] at hp
  exact hp

/-- **The pool a compound is priced on.** -/
theorem Compounded.pool_val {limit : Option ℕ} (c : Compounded deps env limit st) :
    ∃ balance, deps.queryBalance env.contract.address st.config.bondedDenom = .ok balance ∧
      c.pool.liquid.val = balance.val ∧
      c.pool.owedBacked.val = st.totals.scrtOwedOpen.val + st.totals.scrtOwedMatured.val := by
  have h := c.priced
  simp only [poolTotals, bind_eq_ok, liftStd_eq_ok, TotalsCache.owedBacked, add_eq_ok, pure_eq_ok] at h
  obtain ⟨balance, hb, owed, ho, hp⟩ := h
  refine ⟨balance, hb, ?_, ?_⟩
  · rw [← hp, Word.val_satSub, Word.val_zero, Nat.sub_zero]
  · rw [← hp, ho]

/-- **The shares of the fee**: priced on the page as re-read, without its rewards. -/
theorem Compounded.fee_val {limit : Option ℕ} (c : Compounded deps env limit st) :
    c.fee.val = feeShares c.harvested.val st.config.params.performanceFeeBps
      (total (·.bonded) (harvestedSet deps env st c.stop) +
        total (·.pendingRewards) (harvestedSet deps env st c.stop) + c.pool.liquid.val -
        c.pool.owedBacked.val) st.totals.totalSupply.val := by
  rcases restake_ok c.restake_eq with ⟨hz, -, -, hfee⟩ | ⟨-, before, _, _, hbefore, -, hfee, -⟩
  · simp [hz, hfee, feeShares]
  · simp only [harvestPool, bind_eq_ok, totalBonded_eq_ok, sumOf_eq_ok, pure_eq_ok] at hbefore
    obtain ⟨b, hb, p, hp, rfl⟩ := hbefore
    rw [feeShares_val hfee, PoolTotals.net, hb, hp]

/-- A page whose delegations are no smaller than the cached ones does not lose stake. -/
theorem le_total_harvest {contract : Addr} :
    ∀ {page : List ValidatorEntry}, (∀ v ∈ page, v.bonded ≤ stakeAt deps contract v.address) →
      total (·.bonded) page ≤ total (·.bonded) (page.map (harvestEntry deps contract)) := by
  intro page h
  unfold total
  rw [List.map_map]
  refine List.sum_le_sum fun v hv => ?_
  have hle := Word.le_def.1 (h v hv)
  unfold stakeAt at hle
  simp only [Function.comp_apply, harvestEntry]
  rcases hd : delegationOf deps contract v.address with _ | d
  · exact Nat.le_refl _
  · rw [hd] at hle
    exact hle

/-! ## The messages -/

theorem run_feeMessages {config : Config} {fee : Uint128} {messages : List CosmosMsg}
    {rewards : String → Uint128} {till till' : Till} (h : feeMessages config fee = .ok messages)
    (hr : messages.foldlM (Till.run self denom rewards) till = some till') : till' = till := by
  rcases feeMessages_ok h with rfl | ⟨c, m, rfl⟩
  · simpa using hr.symm
  · simpa [Till.run] using hr.symm

/-- The rewards that come with a delegation to a validator after the page's have been
withdrawn. -/
def besides (deps : Deps) (contract : Addr) (denom : String) (page : List ValidatorEntry)
    (validator : String) : ℕ :=
  if validator ∈ page.map (·.address) then 0 else (rewardsAt deps contract denom validator).val

/-- **What restaking a page's rewards leaves in the balance**: what came with the delegation. -/
theorem run_restake {contract : Addr} {page : List ValidatorEntry} {validator : String}
    {harvested fee b : Uint128} {config : Config} {feeMsgs : List CosmosMsg} {till : Till}
    (hnd : (page.map (·.address)).Nodup) (hh : harvested.val = rewardsOf deps contract denom page)
    (hfee : feeMessages config fee = .ok feeMsgs)
    (hr : (withdrawals deps contract denom page ++
      delegateMsg validator denom harvested :: feeMsgs).foldlM
        (Till.run self denom (rewardsAt deps contract denom)) ⟨b, []⟩ = some till) :
    till.balance.val = b.val + besides deps contract denom page validator := by
  rw [List.foldlM_append, Option.bind_eq_bind, Option.bind_eq_some_iff] at hr
  obtain ⟨mid, hmid, hr⟩ := hr
  obtain ⟨hin, hw⟩ := run_withdrawals hnd (by simp) hmid
  rw [List.foldlM_cons, Option.bind_eq_bind, Option.bind_eq_some_iff] at hr
  obtain ⟨mid', hdel, hr⟩ := hr
  have hlast := run_feeMessages hfee hr
  subst hlast
  simp only [delegateMsg, Till.run, Option.bind_eq_bind, Option.bind_eq_some_iff] at hdel
  obtain ⟨coll, hcoll, hspend⟩ := hdel
  have hout := (spend_eq_some.1 hspend).1
  have hamount : amountIn denom [⟨denom, harvested⟩] = harvested.val := by simp [amountIn]
  rw [hamount] at hout
  simp only [List.not_mem_nil, false_or] at hw
  simp only at hin
  unfold besides
  rcases collect_ok hcoll with ⟨hmem, rfl⟩ | ⟨hmem, -, hb⟩
  · rw [if_pos ((hw validator).1 hmem).1]
    omega
  · split
    · rename_i hpage
      have hz : rewardsAt deps contract denom validator = 0 := by
        by_contra hne
        exact hmem ((hw validator).2 ⟨hpage, hne⟩)
      rw [hz, Word.val_zero] at hb
      omega
    · omega

/-- A page with no rewards leaves the balance alone. -/
theorem run_nothing {contract : Addr} {page : List ValidatorEntry} {b : Uint128} {till : Till}
    (hnd : (page.map (·.address)).Nodup) (hh : rewardsOf deps contract denom page = 0)
    (hr : (withdrawals deps contract denom page ++ []).foldlM
        (Till.run self denom (rewardsAt deps contract denom)) ⟨b, []⟩ = some till) :
    till.balance.val = b.val := by
  rw [List.append_nil] at hr
  obtain ⟨hin, -⟩ := run_withdrawals hnd (by simp) hr
  rw [hin, hh]
  rfl

end LstCore
