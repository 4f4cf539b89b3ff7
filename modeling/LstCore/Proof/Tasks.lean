import LstCore.Main.FeeCeiling
import LstCore.Main.PagedSync
import LstCore.Main.Placement
import LstCore.Proof.Posts

/-!
# What upkeep needs

A sync and a compound ask the chain, add up what it answers, and refuse nothing: they go through
where the sums they form stay in range.

* `executeSync_total`: the sums over the set as read again.
* `feeShares_le`: the fee is priced at no more shares than there are.
* `executeCompound_total`: the sums over the set as harvested, with the balance and the harvest.
-/

namespace LstCore

open Lib

variable {deps : Deps} {env : Env} {st : Storage} {limit : Option ℕ} {set page : List ValidatorEntry}
  {contract : Addr} {denom : String} {harvested : Uint128} {stop : ℕ}

/-! ## Sync -/

/-- **A sync goes through** where the sums over the set that it leaves stay in range. -/
theorem executeSync_total {supply : Uint128} (hne : st.validators ≠ [])
    (hstop : pageEnd st.syncCursor (limit.getD defaultSyncLimit) st.validators = .ok stop)
    (hle : st.syncCursor ≤ stop)
    (hread : Readable deps env.contract.address (pageOf st.syncCursor stop st.validators))
    (hb : total (·.bonded) (syncedSet deps env st stop) < 2 ^ 128)
    (hp : total (·.pendingRewards) (syncedSet deps env st stop) < 2 ^ 128)
    (hs : mirrorSupply deps st = .ok supply) : ∃ r, executeSync deps env limit st = .ok r := by
  have hpage : (pageOf st.syncCursor stop st.validators).mapM
      (readDelegation deps env.contract.address st.config.bondedDenom) = .ok _ :=
    mapM_read_eq_ok.2 ⟨hread, rfl⟩
  have hbonded : Validators.totalBonded (syncedSet deps env st stop) = .ok ⟨_, hb⟩ :=
    totalBonded_eq_ok.2 rfl
  have hpending : sumOf (·.pendingRewards) (syncedSet deps env st stop) = .ok ⟨_, hp⟩ :=
    sumOf_eq_ok.2 rfl
  unfold executeSync
  rw [if_neg hne]
  dsimp only
  rw [hstop, ok_bind, hpage, ok_bind, subUsize_eq_ok.2 ⟨hle, rfl⟩, ok_bind, ← syncedSet, hbonded,
    ok_bind, hpending, ok_bind, hs]
  split <;> exact ⟨_, rfl⟩

/-! ## The fee -/

/-- The fee never leaves the code's own bound. -/
theorem Reachable.fee_le (h : Reachable st) :
    st.config.params.performanceFeeBps ≤ maxPerformanceFeeBps := by
  refine (h.inv (P := fun st => Reachable st ∧
    st.config.params.performanceFeeBps ≤ maxPerformanceFeeBps) ?_ ?_).2
  · exact fun st hi => ⟨⟨st, [], hi, .nil⟩, hi.feeWithin.1.trans hi.feeWithin.2⟩
  · rintro st ⟨call, resp⟩ st' ⟨hR, hle⟩ hs
    refine ⟨hR.step hs, ?_⟩
    cases call with
    | migrate =>
      obtain ⟨rfl, -⟩ := migrate_ok hs
      exact hle
    | execute deps env info msg =>
      have hr := execute_config hR.booked hs
      generalize st'.config = config at hr
      cases hr with
      | same | bound | paused => exact hle
      | fee bps hbps => exact hbps.trans hR.ceiling_le

/-- So it takes no more than half of what is harvested. -/
theorem Reachable.fee_half (h : Reachable st) :
    2 * st.config.params.performanceFeeBps ≤ bpsDenom := by
  have hle := h.fee_le
  have hhalf : 2 * maxPerformanceFeeBps ≤ bpsDenom := by decide
  omega

/-- **A fee of at most half the rewards** is worth no more shares than there are. -/
theorem feeShares_le {rewards bps : ℕ} (assets supply : ℕ) (h : 2 * bps ≤ bpsDenom) :
    feeShares rewards bps assets supply ≤ supply := by
  unfold feeShares
  have hhalf : rewards * bps / bpsDenom * 2 ≤ rewards := by
    have hmul : rewards * bps / bpsDenom * bpsDenom ≤ rewards * bps := Nat.div_mul_le_self _ _
    have hle : rewards * (2 * bps) ≤ rewards * bpsDenom := Nat.mul_le_mul_left rewards h
    have hpos : 0 < bpsDenom := by decide
    refine Nat.le_of_mul_le_mul_right ?_ hpos
    calc rewards * bps / bpsDenom * 2 * bpsDenom = rewards * bps / bpsDenom * bpsDenom * 2 := by
          rw [Nat.mul_right_comm]
      _ ≤ rewards * bps * 2 := Nat.mul_le_mul_right 2 hmul
      _ = rewards * (2 * bps) := by rw [Nat.mul_assoc, Nat.mul_comm bps 2]
      _ ≤ rewards * bpsDenom := hle
  refine Nat.div_le_of_le_mul (Nat.mul_le_mul_right supply ?_)
  omega

/-- The fee can be priced, where the pool and the rewards together stay in range. -/
theorem feeSharesForRewards_total (rewards : Uint128) (p : PoolTotals) {bps : ℕ}
    (hbps : 2 * bps ≤ bpsDenom)
    (hfits : p.bonded.val + p.pendingRewards.val + p.liquid.val + rewards.val < 2 ^ 128) :
    ∃ fee, feeSharesForRewards rewards bps p = .ok fee := by
  unfold feeSharesForRewards
  split
  · exact ⟨0, rfl⟩
  · have hpos : 0 < bpsDenom := by decide
    have hle : rewards.val * bps / bpsDenom ≤ rewards.val :=
      Nat.div_le_of_le_mul (by rw [Nat.mul_comm]; exact Nat.mul_le_mul_right _ (by omega))
    obtain ⟨value, hvalue⟩ : ∃ value : Uint128, value.val = rewards.val * bps / bpsDenom :=
      ⟨⟨_, by omega⟩, rfl⟩
    rw [mulDivFloor_eq_ok.2 ⟨hpos.ne', hvalue⟩, ok_bind]
    split
    · exact ⟨0, rfl⟩
    · have hnet : p.net < 2 ^ 128 := by
        unfold PoolTotals.net
        omega
      obtain ⟨a, ha⟩ : ∃ a : Uint128, a.val = p.net := ⟨⟨_, hnet⟩, rfl⟩
      obtain ⟨after, hafter⟩ := Word.exists_add? (a := a) (b := rewards) (by
        rw [ha]
        unfold PoolTotals.net
        omega)
      have hval := Word.add?_eq_some.1 hafter
      have hsub : after.sub? value = some (after.satSub value) := by
        rw [Word.sub?_eq_some, Word.val_satSub]
        omega
      rw [assets_eq_ok.2 ⟨by omega, ha⟩, ok_bind, hafter, orErr, ok_bind, hsub, orErr, ok_bind]
      split
      · exact ⟨0, rfl⟩
      · rename_i hz
        -- the shares are no more than the supply, so they fit
        have hd : (after.satSub value).val ≠ 0 := fun h => hz (Word.eq_zero_iff.2 h)
        have hshares : value.val * p.supply.val / (after.satSub value).val ≤ p.supply.val := by
          have hden : (after.satSub value).val = p.net + rewards.val - value.val := by
            rw [Word.val_satSub]
            omega
          rw [hden, hvalue]
          exact feeShares_le p.net p.supply.val hbps
        exact ⟨⟨_, hshares.trans_lt p.supply.isLt⟩, mulDivFloor_eq_ok.2 ⟨hd, rfl⟩⟩

/-! ## Compound -/

/-- The rewards of a page can be taken, where together they stay in range. -/
theorem harvest_total (denom : String) (hread : Readable deps contract page)
    (hfits : rewardsOf deps contract denom page < 2 ^ 128) :
    ∃ acc, page.foldlM (harvestStep deps contract denom) ⟨[], [], 0⟩ = .ok acc := by
  have key : ∀ (page : List ValidatorEntry) (a : HarvestAcc), Readable deps contract page →
      a.harvested.val + rewardsOf deps contract denom page < 2 ^ 128 →
      ∃ acc, page.foldlM (harvestStep deps contract denom) a = .ok acc := by
    intro page
    induction page with
    | nil => exact fun a _ _ => ⟨a, rfl⟩
    | cons v page ih =>
      intro a hread hfits
      obtain ⟨⟨d, hd⟩, hread⟩ := List.forall_mem_cons.1 hread
      obtain ⟨mid, hmid⟩ : ∃ mid, harvestStep deps contract denom a v = .ok mid := by
        unfold harvestStep
        rw [hd, show liftStd (Except.ok d) = .ok d from rfl, ok_bind]
        dsimp only
        split
        · exact ⟨_, rfl⟩
        · have hrewards : rewardsAt deps contract denom v.address =
              (d.map (·.rewardsIn denom)).getD 0 := by rw [rewardsAt, delegationOf, hd]
          rw [rewardsOf, List.map_cons, List.sum_cons, hrewards] at hfits
          obtain ⟨s, hs⟩ := Word.exists_add? (a := a.harvested)
            (b := (d.map (·.rewardsIn denom)).getD 0) (by omega)
          rw [add_eq_ok.2 (Word.add?_eq_some.1 hs), ok_bind]
          exact ⟨_, rfl⟩
      obtain ⟨-, -, -, hh⟩ := harvestStep_ok hmid
      obtain ⟨acc, hacc⟩ := ih mid hread (by
        rw [hh]
        simp only [rewardsOf, List.map_cons, List.map_nil, List.sum_cons, List.sum_nil] at hfits ⊢
        omega)
      exact ⟨acc, by rw [List.foldlM_cons, hmid, ok_bind, hacc]⟩
  exact key page _ hread (by simpa using hfits)

/-- What is harvested can be restaked, where it stays in range with the pool. -/
theorem restake_total {token : ContractInfo} (pool : PoolTotals) (harvested : Uint128)
    (ht : st.config.token = some token)
    (hbps : 2 * st.config.params.performanceFeeBps ≤ bpsDenom)
    (hwhole : ((actives set).map (·.weightBps)).sum = bpsDenom)
    (hfits : total (·.bonded) set + total (·.pendingRewards) set + pool.liquid.val + harvested.val <
      2 ^ 128) :
    ∃ r, restake st pool set harvested = .ok r := by
  unfold restake
  split
  · exact ⟨_, rfl⟩
  · obtain ⟨b, hb⟩ : ∃ b : Uint128, b.val = total (·.bonded) set :=
      ⟨⟨total (·.bonded) set, by omega⟩, rfl⟩
    obtain ⟨p, hp⟩ : ∃ p : Uint128, p.val = total (·.pendingRewards) set :=
      ⟨⟨total (·.pendingRewards) set, by omega⟩, rfl⟩
    have hbefore : harvestPool st pool.liquid pool.owedBacked set =
        .ok ⟨b, p, pool.liquid, pool.owedBacked, st.totals.totalSupply⟩ := by
      unfold harvestPool
      rw [totalBonded_eq_ok.2 hb, ok_bind, sumOf_eq_ok.2 hp, ok_bind]
      rfl
    obtain ⟨i, hi⟩ : ∃ i, Validators.selectForDelegation set harvested = .ok i :=
      Validators.selectForDelegation_total hwhole (by omega)
    obtain ⟨v, hv⟩ := Validators.selectForDelegation_furthest hi
    have hle : v.bonded.val ≤ total (·.bonded) set :=
      List.single_le_sum (fun _ _ => Nat.zero_le _) _
        (List.mem_map_of_mem (f := fun u : ValidatorEntry => u.bonded.val)
          (List.mem_of_getElem? hv.entry))
    have hplaced : placeStake harvested set =
        .ok (set.set i { v with bonded := ⟨v.bonded.val + harvested.val, by omega⟩ }, v.address) :=
      placeStake_eq_ok.2 ⟨i, v, _, hi, hv.entry, rfl, rfl, rfl⟩
    obtain ⟨fee, hfee⟩ := feeSharesForRewards_total harvested
      ⟨b, p, pool.liquid, pool.owedBacked, st.totals.totalSupply⟩ hbps (by
        rw [hb, hp]
        exact hfits)
    obtain ⟨messages, hmessages⟩ : ∃ messages, feeMessages st.config fee = .ok messages := by
      unfold feeMessages
      split
      · exact ⟨_, rfl⟩
      · rw [Config.boundToken, ht, orErr, ok_bind]
        exact ⟨_, rfl⟩
    rw [hbefore, ok_bind, hplaced, ok_bind]
    dsimp only
    rw [hfee, ok_bind, hmessages]
    exact ⟨_, rfl⟩

/-- **A compound goes through** where the sums over the set as harvested, with the balance and the
harvest, stay in range, and so does the supply with as many shares again. -/
theorem executeCompound_total {token : ContractInfo} {balance : Uint128} (hne : st.validators ≠ [])
    (ht : st.config.token = some token) (hbps : 2 * st.config.params.performanceFeeBps ≤ bpsDenom)
    (hstop : pageEnd st.syncCursor (limit.getD defaultCompoundLimit) st.validators = .ok stop)
    (hle : st.syncCursor ≤ stop)
    (hread : Readable deps env.contract.address (pageOf st.syncCursor stop st.validators))
    (hbal : deps.queryBalance env.contract.address st.config.bondedDenom = .ok balance)
    (hwhole : ((actives (harvestedSet deps env st stop)).map (·.weightBps)).sum = bpsDenom)
    (howed : st.totals.scrtOwedOpen.val + st.totals.scrtOwedMatured.val < 2 ^ 128)
    (hfits : total (·.bonded) (harvestedSet deps env st stop) +
      total (·.pendingRewards) (harvestedSet deps env st stop) + balance.val +
      rewardsOf deps env.contract.address st.config.bondedDenom
        (pageOf st.syncCursor stop st.validators) < 2 ^ 128)
    (hsupply : 2 * st.totals.totalSupply.val < 2 ^ 128) :
    ∃ r, executeCompound deps env limit st = .ok r := by
  obtain ⟨acc, hacc⟩ := harvest_total st.config.bondedDenom hread (by omega)
  obtain ⟨-, hpage, -, hh⟩ := harvest_ok hacc
  have hadd : add st.totals.scrtOwedOpen st.totals.scrtOwedMatured = .ok ⟨_, howed⟩ := add_eq_ok.2 rfl
  have hpool : poolTotals deps env st 0 = .ok ⟨st.totals.totalBonded, st.totals.pendingRewards,
      balance.satSub 0, ⟨_, howed⟩, st.totals.totalSupply⟩ := by
    unfold poolTotals
    rw [hbal, show liftStd (Except.ok balance) = .ok balance from rfl, ok_bind, TotalsCache.owedBacked,
      hadd]
    rfl
  obtain ⟨⟨set', messages, fee⟩, hre⟩ := restake_total ⟨st.totals.totalBonded,
    st.totals.pendingRewards, balance.satSub 0, ⟨_, howed⟩, st.totals.totalSupply⟩ acc.harvested ht hbps
    hwhole (by
      rw [hh, Word.val_satSub, Word.val_zero, Nat.sub_zero]
      exact hfits)
  -- what is restaked is part of what was in range, and the fee is at most the supply
  obtain ⟨hb, hp, hfee⟩ : total (·.bonded) set' < 2 ^ 128 ∧ total (·.pendingRewards) set' < 2 ^ 128 ∧
      fee ≤ st.totals.totalSupply := by
    rcases restake_ok hre with ⟨-, rfl, -, rfl⟩ | ⟨-, before, _, _, hbefore, hplaced, hfee, -⟩
    · exact ⟨by omega, by omega, Word.le_def.2 (Nat.zero_le _)⟩
    · obtain ⟨i, v, b, -, hv, hb, rfl, -⟩ := placeStake_eq_ok.1 hplaced
      have hbonded := total_set (·.bonded) { v with bonded := b } hv
      have hpending := total_set (·.pendingRewards) { v with bonded := b } hv
      dsimp only at hbonded hpending
      refine ⟨by omega, by omega, ?_⟩
      simp only [harvestPool, bind_eq_ok, totalBonded_eq_ok, sumOf_eq_ok, pure_eq_ok] at hbefore
      obtain ⟨_, -, _, -, rfl⟩ := hbefore
      rw [Word.le_def, feeShares_val hfee]
      exact feeShares_le _ _ hbps
  have hbonded : Validators.totalBonded set' = .ok ⟨_, hb⟩ := totalBonded_eq_ok.2 rfl
  have hpending : sumOf (·.pendingRewards) set' = .ok ⟨_, hp⟩ := sumOf_eq_ok.2 rfl
  obtain ⟨ts, hts⟩ := Word.exists_add? (a := st.totals.totalSupply) (b := fee) (by
    have := Word.le_def.1 hfee
    omega)
  unfold executeCompound
  rw [if_neg hne]
  dsimp only
  rw [hstop, ok_bind, hpool, ok_bind, hacc, ok_bind, hpage, ← harvestedSet, hre, ok_bind]
  dsimp only
  rw [subUsize_eq_ok.2 ⟨hle, rfl⟩, ok_bind, hbonded, ok_bind, hpending, ok_bind,
    add_eq_ok.2 (Word.add?_eq_some.1 hts), ok_bind]
  exact ⟨_, rfl⟩

end LstCore
