import LstCore.Proof.Compounding

/-!
# The rate across a compound

The rate counts the pending rewards the cache holds in full, and the fee on the rewards is
minted when they are harvested. So a compound raises the rate only by what its page brings
in beyond what the cache counts for it already, and lowers it by the fee
(`compound_rate_iff`).
-/

namespace LstCore

open Lib World

variable {w w' : World} {t : Tx} {limit : Option ℕ} {view view' : Deps}

namespace World

/-- The rate `query_state` reports. -/
def rate (w : World) (view : Deps) : Exec Uint128 := do
  let state ← queryState (w.deps view w.balance) w.env w.store
  pure state.exchangeRate

/-- Where the page of the next compound ends. -/
def pageStop (w : World) (limit : Option ℕ) : ℕ :=
  min (w.store.syncCursor + max (limit.getD defaultCompoundLimit) 1) w.store.validators.length

/-- The validators the next compound works on. -/
def page (w : World) (limit : Option ℕ) : List ValidatorEntry :=
  pageOf w.store.syncCursor (w.pageStop limit) w.store.validators

/-- The rewards reported for them. -/
def harvest (w : World) (view : Deps) (limit : Option ℕ) : ℕ :=
  rewardsOf view w.self.address w.store.config.bondedDenom (w.page limit)

/-- The pending rewards the cache counts for them already. -/
def counted (w : World) (limit : Option ℕ) : ℕ := total (·.pendingRewards) (w.page limit)

/-- What their delegations have grown by over the cached ones. -/
def growth (w : World) (view : Deps) (limit : Option ℕ) : ℕ :=
  total (·.bonded) ((w.page limit).map (harvestEntry view w.self.address)) -
    total (·.bonded) (w.page limit)

/-- The validator the rewards are restaked to. -/
def restakeTarget (w : World) (view : Deps) (limit : Option ℕ) : Option ValidatorEntry := do
  let harvested ← Word.ofNat? 128 (w.harvest view limit)
  let set := harvestedSet view w.env w.store (w.pageStop limit)
  let idx ← (Validators.selectForDelegation set harvested).toOption
  set[idx]?

/-- The rewards the chain pays out along with the restaking. -/
def alongside (w : World) (view : Deps) (limit : Option ℕ) : ℕ :=
  if w.harvest view limit = 0 then 0
  else (w.restakeTarget view limit).elim 0 fun v =>
    besides view w.self.address w.store.config.bondedDenom (w.page limit) v.address

/-- What the cached pool holds, before what is owed out of it. -/
def gross (w : World) : ℕ :=
  w.store.totals.totalBonded.val + w.store.totals.pendingRewards.val + w.balance.val

/-- What is owed out of it. -/
def owed (w : World) : ℕ := w.store.totals.scrtOwedOpen.val + w.store.totals.scrtOwedMatured.val

/-- The shares of the fee: priced on the pool with the page re-read and without its rewards. -/
def fee (w : World) (view : Deps) (limit : Option ℕ) : ℕ :=
  feeShares (w.harvest view limit) w.store.config.params.performanceFeeBps
    (w.gross + w.growth view limit - w.counted limit - w.owed) w.store.totals.totalSupply.val

/-- At the rate before, the shares of the fee are worth no more than what the page brings in
beyond what the cache counts for it, up to what rounding the rate left out. -/
def KeepsRate (w : World) (view : Deps) (limit : Option ℕ) : Prop :=
  let supply := w.store.totals.totalSupply.val
  let assets := w.gross - w.owed
  let assetsAfter := w.gross + w.growth view limit - w.counted limit + w.harvest view limit +
    w.alongside view limit - w.owed
  supply = 0 ∨ assets * rateScale / supply * w.fee view limit + assets * rateScale ≤
    assetsAfter * rateScale + assets * rateScale % supply

theorem rate_val {rate : Uint128} (h : w.rate view = .ok rate) :
    rate.val = if w.store.totals.totalSupply.val = 0 then rateScale
      else (w.gross - w.owed) * rateScale / w.store.totals.totalSupply.val := by
  unfold World.rate queryState at h
  simp only [bind_eq_ok, poolTotals, liftStd_eq_ok, deps_balance, Except.ok.injEq,
    TotalsCache.owedBacked, add_eq_ok, pure_eq_ok] at h
  obtain ⟨resp, ⟨pool, ⟨balance, rfl, ob, hob, rfl⟩, r, hr, o, -, rfl⟩, rfl⟩ := h
  have hval := exchangeRate_val hr
  simp only [Word.eq_zero_iff] at hval
  rw [hval]
  have hnet : PoolTotals.net ⟨w.store.totals.totalBonded, w.store.totals.pendingRewards,
      w.balance.satSub 0, ob, w.store.totals.totalSupply⟩ = w.gross - w.owed := by
    unfold PoolTotals.net gross owed
    simp only [Word.val_satSub, Word.val_zero, Nat.sub_zero, hob]
  rw [hnet]

end World

/-- What the re-read of the page makes of the cached sums. -/
theorem World.sums_harvested (hM : Mirrored w.store)
    (hview : ∀ v ∈ w.store.validators, v.bonded ≤ stakeAt view w.self.address v.address)
    (b : Uint128) (hc : w.store.syncCursor ≤ w.pageStop limit) :
    total (·.bonded) (harvestedSet (w.deps view b) w.env w.store (w.pageStop limit)) =
        w.store.totals.totalBonded.val + w.growth view limit ∧
      total (·.pendingRewards) (harvestedSet (w.deps view b) w.env w.store (w.pageStop limit)) +
        w.counted limit = w.store.totals.pendingRewards.val := by
  obtain ⟨hsb, hsp⟩ := @total_harvested (w.deps view b) w.env w.store (w.pageStop limit) hc
  have hgrow := @le_total_harvest view w.self.address (w.page limit)
    fun v hv => hview v (List.mem_of_mem_take (List.mem_of_mem_drop hv))
  constructor
  · have hsum : total (·.bonded) (harvestedSet (w.deps view b) w.env w.store (w.pageStop limit)) +
        total (·.bonded) (w.page limit) = total (·.bonded) w.store.validators +
          total (·.bonded) ((w.page limit).map (harvestEntry view w.self.address)) := hsb
    rw [hM.bonded]
    unfold World.growth
    omega
  · rw [hM.pending]
    exact hsp

/-- **The restake** adds the rewards to the stake of one validator, and leaves in the balance what
the chain pays out along with the delegation. -/
theorem World.restaked {c : Compounded (w.deps view w.balance) w.env limit w.store} {till : Till}
    (hS : Slotted w.store) (hH : c.harvested.val = w.harvest view limit)
    (hstop : c.stop = w.pageStop limit)
    (hrun : w.runMessages view w.balance c.messages = some till) :
    total (·.bonded) c.set =
        total (·.bonded) (harvestedSet (w.deps view w.balance) w.env w.store (w.pageStop limit)) +
          c.harvested.val ∧
      total (·.pendingRewards) c.set =
        total (·.pendingRewards)
          (harvestedSet (w.deps view w.balance) w.env w.store (w.pageStop limit)) ∧
      till.balance.val = w.balance.val + w.alongside view limit := by
  have hnd := addresses_page hS.distinct w.store.syncCursor (w.pageStop limit)
  unfold runMessages at hrun
  rw [Compounded.messages, hstop] at hrun
  rw [← hstop]
  rcases restake_ok c.restake_eq with ⟨hz, hset, hnil, -⟩ | ⟨hz, -, validator, feeMsgs, -, hplace, -, hfm,
    hmsgs⟩
  · -- nothing harvested, so nothing is delegated
    have hz' : w.harvest view limit = 0 := by rw [← hH, hz]; rfl
    rw [hnil] at hrun
    refine ⟨by rw [hz, hset]; rfl, by rw [hset], ?_⟩
    rw [run_nothing hnd hz' hrun, World.alongside, if_pos hz', Nat.add_zero]
  · have hz' : w.harvest view limit ≠ 0 := fun h0 => hz (Word.eq_zero_iff.2 (hH.trans h0))
    obtain ⟨htb, htp⟩ := total_placeStake hplace
    refine ⟨htb, htp, ?_⟩
    -- the rewards go to the validator furthest below its weight in the set just read
    obtain ⟨i, v, _, hsel, hv, -, -, rfl⟩ := placeStake_eq_ok.1 hplace
    have htarget : w.restakeTarget view limit = some v := by
      unfold World.restakeTarget
      simp only [Option.bind_eq_bind, Option.bind_eq_some_iff, toOption_eq_some]
      rw [hstop] at hsel hv
      exact ⟨c.harvested, Word.ofNat?_eq_some.2 hH, i, hsel, hv⟩
    rw [hmsgs] at hrun
    rw [run_restake hnd hH hfm hrun, World.alongside, if_neg hz', htarget]
    rfl

/-- **What a compound leaves.** -/
theorem compound_leaves (hr : Reaches World.step w) (hmsg : t.msg = .compound limit)
    (hfunds : t.info.funds = [])
    (hview : ∀ v ∈ w.store.validators, v.bonded ≤ stakeAt t.view w.self.address v.address)
    (ht : w.tx t = some w') :
    w'.store.totals.totalSupply.val = w.store.totals.totalSupply.val + w.fee t.view limit ∧
      w'.owed = w.owed ∧ w.counted limit ≤ w.gross ∧
      w'.gross + w.counted limit = w.gross + w.growth t.view limit + w.harvest t.view limit +
        w.alongside t.view limit := by
  have hreach := hr.reachable step_store
  have hS := hreach.slotted
  have hM := hreach.mirrored
  obtain ⟨b, store, resp, till, hf, he, hrun, rfl⟩ := tx_ok ht
  rw [hmsg] at he
  have hb : b = w.balance := by
    rw [funded_eq_some, hfunds] at hf
    exact Word.ext hf
  subst hb
  obtain ⟨c, rfl, hm, -⟩ := executeCompound_ok he
  have hstop : c.stop = w.pageStop limit := pageEnd_eq c.stop_eq
  have hc : w.store.syncCursor ≤ w.pageStop limit := hstop ▸ c.cursor_le
  have hH : c.harvested.val = w.harvest t.view limit := by rw [c.harvested_val, hstop]; rfl
  obtain ⟨hsb, hsp⟩ := World.sums_harvested hM hview w.balance hc
  have hfee : c.fee.val = w.fee t.view limit := by
    obtain ⟨b, hb, hliquid, howed⟩ := c.pool_val
    rw [deps_balance, Except.ok.injEq] at hb
    subst hb
    rw [c.fee_val, hH, hstop, hsb, hliquid, howed, World.fee]
    congr 1
    unfold World.gross World.owed
    omega
  rw [hm] at hrun
  obtain ⟨hset, hset', htill⟩ := World.restaked hS hH hstop hrun
  refine ⟨by rw [← hfee, ← c.supply_val]; rfl, rfl, ?_, ?_⟩ <;> unfold World.gross
  · omega
  · simp only [Compounded.next, c.bonded_val, c.pending_val, htill]
    omega

/-- **When a compound does not lower the rate.** In every reachable world whose validators'
delegations are no smaller than the cached ones, a compound that succeeds and brings no coins along
leaves the reported rate at least where it was if and only if the shares of its fee are worth no more than what
its page brings in beyond what the cache counts for it already. -/
theorem compound_rate_iff {rate rate' : Uint128} (hr : Reaches World.step w)
    (hmsg : t.msg = .compound limit) (hfunds : t.info.funds = [])
    (hview : ∀ v ∈ w.store.validators, v.bonded ≤ stakeAt t.view w.self.address v.address)
    (ht : w.tx t = some w') (hq : w.rate view = .ok rate) (hq' : w'.rate view' = .ok rate') :
    rate ≤ rate' ↔ w.KeepsRate t.view limit := by
  obtain ⟨hs, ho, hle, hg⟩ := compound_leaves hr hmsg hfunds hview ht
  have hv := rate_val hq
  have hv' := rate_val hq'
  rw [Word.le_def, hv, hv', hs, ho]
  unfold KeepsRate
  dsimp only
  have hassets : w'.gross - w.owed = w.gross + w.growth t.view limit - w.counted limit +
      w.harvest t.view limit + w.alongside t.view limit - w.owed := by
    omega
  rw [← hassets]
  by_cases hz : w.store.totals.totalSupply.val = 0
  · have hfee : w.fee t.view limit = 0 := by simp [World.fee, feeShares, hz]
    simp [hz, hfee]
  · rw [if_neg hz, if_neg (by omega), rate_le_iff hz]
    simp only [hz, false_or]

/-- What the chain reports once the second validator has earned 10 SCRT. -/
def devEarned : Deps := devView (Uint128.new 110000000)
  [("validatorone", Uint128.new 10000000, 0),
    ("validatortwo", Uint128.new 100000000, Uint128.new 10000000)]

/-- Someone syncs. -/
def devSynced : List Event := [devBootstrap, devDeposit, devTx devEarned "keeper" 0 (.sync none)]

/-- The keeper compounds. -/
def devCompoundTx : Tx := ⟨devEarned, ⟨"keeper", []⟩, .compound none⟩

set_option maxRecDepth 10000 in
/-- The sync has put the 10 SCRT into the rate, and the compound takes the fee out of it. -/
theorem compound_lowers_rate : ∃ w w' rate rate', Reaches World.step w ∧
    w.tx devCompoundTx = some w' ∧
    (∀ v ∈ w.store.validators, v.bonded ≤ stakeAt devEarned w.self.address v.address) ∧
    w.rate devEarned = .ok rate ∧ rate.val = 1090909090909090909 ∧
    w'.rate devEarned = .ok rate' ∧ rate'.val = 1083636363964738292 := by
  have hbefore : (devSynced.foldlM World.step devWorld).map (fun w =>
      ((w.rate devEarned).toOption.map (·.val), decide (∀ v ∈ w.store.validators,
        v.bonded.val ≤ (stakeAt devEarned w.self.address v.address).val))) =
      some (some 1090909090909090909, true) := by decide +kernel
  have hafter : ((devSynced.foldlM World.step devWorld).bind (·.tx devCompoundTx)).map (fun w =>
      (w.rate devEarned).toOption.map (·.val)) = some (some 1083636363964738292) := by decide +kernel
  obtain ⟨w, hw, hr⟩ := Option.map_eq_some_iff.1 hbefore
  rw [hw, Option.bind_some] at hafter
  obtain ⟨w', hw', hr'⟩ := Option.map_eq_some_iff.1 hafter
  rw [Prod.mk.injEq, decide_eq_true_eq] at hr
  obtain ⟨rate, hq, hv⟩ := Option.map_eq_some_iff.1 hr.1
  obtain ⟨rate', hq', hv'⟩ := Option.map_eq_some_iff.1 hr'
  exact ⟨w, w', rate, rate', ⟨_, along_replay devWorld_fresh hw⟩, hw', hr.2, toOption_eq_some.1 hq, hv,
    toOption_eq_some.1 hq', hv'⟩

/-- The same rewards, which no one has synced. -/
def devUnsynced : List Event := [devBootstrap, devDeposit]

set_option maxRecDepth 10000 in
theorem compound_rate_iff_unsynced : ∃ w w' rate rate',
    devUnsynced.foldlM World.step devWorld = some w ∧ w.tx devCompoundTx = some w' ∧
    w.rate devEarned = .ok rate ∧ w'.rate devEarned = .ok rate' ∧ rate ≤ rate' ∧
    (rate ≤ rate' ↔ w.KeepsRate devEarned none) := by
  have hbefore : (devUnsynced.foldlM World.step devWorld).map (fun w =>
      ((w.rate devEarned).toOption.map (·.val), decide (∀ v ∈ w.store.validators,
        v.bonded.val ≤ (stakeAt devEarned w.self.address v.address).val))) =
      some (some rateScale, true) := by decide +kernel
  have hafter : ((devUnsynced.foldlM World.step devWorld).bind (·.tx devCompoundTx)).map (fun w =>
      (w.rate devEarned).toOption.map (·.val)) = some (some 1083636363964738292) := by decide +kernel
  obtain ⟨w, hw, hr⟩ := Option.map_eq_some_iff.1 hbefore
  rw [hw, Option.bind_some] at hafter
  obtain ⟨w', hw', hr'⟩ := Option.map_eq_some_iff.1 hafter
  rw [Prod.mk.injEq, decide_eq_true_eq] at hr
  obtain ⟨rate, hq, hv⟩ := Option.map_eq_some_iff.1 hr.1
  obtain ⟨rate', hq', hv'⟩ := Option.map_eq_some_iff.1 hr'
  rw [toOption_eq_some] at hq hq'
  have hle : rate ≤ rate' := by
    rw [Word.le_def, hv, hv']
    decide
  exact ⟨w, w', rate, rate', hw, hw', hq, hq', hle,
    @compound_rate_iff w w' devCompoundTx none devEarned devEarned _ _
      ⟨_, along_replay devWorld_fresh hw⟩ rfl rfl hr.2 hw' hq hq'⟩

end LstCore
