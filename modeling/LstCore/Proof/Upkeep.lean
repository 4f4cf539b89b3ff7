import LstCore.Proof.Frame

/-!
# Upkeep and the manager, inverted

What a successful sync, compound and manager call did. All of them leave the queue
alone. The sync and the compound keep the slots of the set, and so does a redelegation;
a weight change appends entries with free slots (`slots_applyWeights`).
-/

namespace LstCore

open Lib

variable {deps : Deps} {env : Env} {info : MessageInfo} {st st' : Storage}
  {set set' : List ValidatorEntry} {limit : Option ℕ} {resp : Response}

theorem subUsize_eq_ok {a b n : ℕ} : subUsize a b = .ok n ↔ b ≤ a ∧ a - b = n := by
  unfold subUsize
  split <;> simp_all

theorem pageEnd_eq {cursor limit stop : ℕ} (h : pageEnd cursor limit set = .ok stop) :
    stop = min (cursor + max limit 1) set.length := by
  unfold pageEnd addUsize at h
  simp only [bind_eq_ok, pure_eq_ok] at h
  obtain ⟨n, hn, rfl⟩ := h
  split at hn
  · rw [Except.ok.injEq] at hn
    rw [← hn]
  · simp at hn

/-- The set after a sync of the page up to `stop`. -/
def syncedSet (deps : Deps) (env : Env) (st : Storage) (stop : ℕ) : List ValidatorEntry :=
  withPage st.syncCursor stop st.validators
    ((pageOf st.syncCursor stop st.validators).map
      (readEntry deps env.contract.address st.config.bondedDenom))

/-- **A sync that went through**: the page it read, and the totals it cached. -/
structure Synced (deps : Deps) (env : Env) (limit : Option ℕ) (st : Storage) where
  stop : ℕ
  bonded : Uint128
  pending : Uint128
  supply : Uint128
  time : ℕ
  stop_eq : pageEnd st.syncCursor (limit.getD defaultSyncLimit) st.validators = .ok stop
  cursor_le : st.syncCursor ≤ stop
  readable : Readable deps env.contract.address (pageOf st.syncCursor stop st.validators)
  bonded_val : bonded.val = total (·.bonded) (syncedSet deps env st stop)
  pending_val : pending.val = total (·.pendingRewards) (syncedSet deps env st stop)
  supply_eq : if (syncedSet deps env st stop).length ≤ stop then mirrorSupply deps st = .ok supply
    else supply = st.totals.totalSupply

namespace Synced

variable (s : Synced deps env limit st)

/-- The storage it leaves. -/
def next : Storage :=
  { st with
    validators := syncedSet deps env st s.stop
    syncCursor := if (syncedSet deps env st s.stop).length ≤ s.stop then 0 else s.stop
    totals := { st.totals with
      totalBonded := s.bonded, pendingRewards := s.pending, totalSupply := s.supply,
      lastSyncTime := s.time } }

/-- What it answers. -/
def answer : ExecuteAnswer :=
  .sync s.bonded (s.stop - st.syncCursor) (decide ((syncedSet deps env st s.stop).length ≤ s.stop))

theorem still : Still st s.next := .of_write rfl rfl rfl rfl

theorem slots_next : slots s.next.validators = slots st.validators :=
  slots_withPage (slots_read _)

theorem length_next : (syncedSet deps env st s.stop).length = st.validators.length :=
  length_eq_of_slots s.slots_next

theorem stop_le : s.stop ≤ st.validators.length := by
  rw [pageEnd_eq s.stop_eq]
  exact min_le_right _ _

end Synced

/-- **A sync, inverted.** -/
theorem executeSync_ok (h : executeSync deps env limit st = .ok (st', resp)) :
    ∃ s : Synced deps env limit st, st' = s.next ∧ resp.messages = [] ∧ resp.data = some s.answer := by
  unfold executeSync at h
  rw [guard_eq_ok] at h
  simp only [bind_eq_ok, mapM_read_eq_ok, totalBonded_eq_ok, sumOf_eq_ok, subUsize_eq_ok] at h
  obtain ⟨-, stop, hstop, _, ⟨hr, rfl⟩, processed, ⟨hc, rfl⟩, tb, htb, pr, hpr, h⟩ := h
  split at h <;> rename_i hd <;> rw [decide_eq_true_eq] at hd
  -- the token's supply is mirrored only where the pass over the set is complete
  · simp only [bind_eq_ok, pure_eq_ok, Prod.mk.injEq] at h
    obtain ⟨ts, hts, _, rfl, rfl, rfl⟩ := h
    have hd : (syncedSet deps env st stop).length ≤ stop := hd
    refine ⟨⟨stop, tb, pr, ts, env.time, hstop, hc, hr, htb, hpr, (if_pos hd).mpr hts⟩, ?_, rfl, rfl⟩
    simp only [Synced.next]
    rw [if_pos hd]
    rfl
  · simp only [bind_eq_ok, pure_eq_ok, Prod.mk.injEq] at h
    obtain ⟨_, rfl, rfl, rfl⟩ := h
    have hd : ¬ (syncedSet deps env st stop).length ≤ stop := hd
    refine ⟨⟨stop, tb, pr, st.totals.totalSupply, st.totals.lastSyncTime, hstop, hc, hr, htb, hpr,
      (if_neg hd).mpr rfl⟩, ?_, rfl, rfl⟩
    simp only [Synced.next]
    rw [if_neg hd]
    rfl

/-! ## Compounding -/

/-- The set after the harvest of the page up to `stop`. -/
def harvestedSet (deps : Deps) (env : Env) (st : Storage) (stop : ℕ) : List ValidatorEntry :=
  withPage st.syncCursor stop st.validators
    ((pageOf st.syncCursor stop st.validators).map (harvestEntry deps env.contract.address))

theorem feeMessages_ok {config : Config} {fee : Uint128} {messages : List CosmosMsg}
    (h : feeMessages config fee = .ok messages) : messages = [] ∨ ∃ c m, messages = [.token c m] := by
  unfold feeMessages at h
  split at h
  · exact .inl (Except.ok.inj h).symm
  · simp only [bind_eq_ok, pure_eq_ok] at h
    obtain ⟨token, -, rfl⟩ := h
    exact .inr ⟨_, _, rfl⟩

/-- **The restaking, inverted.** -/
theorem restake_ok {pool : PoolTotals} {harvested fee : Uint128} {messages : List CosmosMsg}
    (h : restake st pool set harvested = .ok (set', messages, fee)) :
    (harvested = 0 ∧ set' = set ∧ messages = [] ∧ fee = 0) ∨
    (harvested ≠ 0 ∧ ∃ before validator feeMsgs,
      harvestPool st pool.liquid pool.owedBacked set = .ok before ∧
      placeStake harvested set = .ok (set', validator) ∧
      feeSharesForRewards harvested st.config.params.performanceFeeBps before = .ok fee ∧
      feeMessages st.config fee = .ok feeMsgs ∧
      messages = delegateMsg validator st.config.bondedDenom harvested :: feeMsgs) := by
  unfold restake at h
  split at h
  · rename_i hz
    simp only [Except.ok.injEq, Prod.mk.injEq] at h
    obtain ⟨rfl, rfl, rfl⟩ := h
    exact .inl ⟨hz, rfl, rfl, rfl⟩
  · rename_i hz
    simp only [bind_eq_ok, Prod.exists, pure_eq_ok, Prod.mk.injEq] at h
    obtain ⟨before, hb, set', validator, hp, fee, hf, feeMsgs, hm, rfl, rfl, rfl⟩ := h
    exact .inr ⟨hz, before, validator, feeMsgs, hb, hp, hf, hm, rfl⟩

/-- Restaking changes nothing but stake. -/
theorem map_restake {α : Type*} {f : ValidatorEntry → α} {pool : PoolTotals} {harvested fee : Uint128}
    {messages : List CosmosMsg} (hf : ∀ (v : ValidatorEntry) b, f { v with bonded := b } = f v)
    (h : restake st pool set harvested = .ok (set', messages, fee)) : set'.map f = set.map f := by
  rcases restake_ok h with ⟨-, rfl, -⟩ | ⟨-, before, validator, feeMsgs, -, hp, -⟩
  · rfl
  · exact map_placeStake hf hp

theorem slots_restake {pool : PoolTotals} {harvested fee : Uint128} {messages : List CosmosMsg}
    (h : restake st pool set harvested = .ok (set', messages, fee)) : slots set' = slots set :=
  map_restake (fun _ _ => rfl) h

/-- **A compound that went through**: the page it harvested, the pool it was priced on, and
what the restaking made of the set. -/
structure Compounded (deps : Deps) (env : Env) (limit : Option ℕ) (st : Storage) where
  stop : ℕ
  pool : PoolTotals
  harvested : Uint128
  set : List ValidatorEntry
  restaked : List CosmosMsg
  fee : Uint128
  bonded : Uint128
  pending : Uint128
  supply : Uint128
  time : ℕ
  stop_eq : pageEnd st.syncCursor (limit.getD defaultCompoundLimit) st.validators = .ok stop
  cursor_le : st.syncCursor ≤ stop
  priced : poolTotals deps env st 0 = .ok pool
  readable : Readable deps env.contract.address (pageOf st.syncCursor stop st.validators)
  harvested_val : harvested.val = rewardsOf deps env.contract.address st.config.bondedDenom
    (pageOf st.syncCursor stop st.validators)
  restake_eq : restake st pool (harvestedSet deps env st stop) harvested = .ok (set, restaked, fee)
  bonded_val : bonded.val = total (·.bonded) set
  pending_val : pending.val = total (·.pendingRewards) set
  supply_val : supply.val = st.totals.totalSupply.val + fee.val

namespace Compounded

variable (c : Compounded deps env limit st)

/-- The storage it leaves. -/
def next : Storage :=
  { st with
    validators := c.set
    syncCursor := if c.set.length ≤ c.stop then 0 else c.stop
    totals := { st.totals with
      totalBonded := c.bonded, pendingRewards := c.pending, totalSupply := c.supply,
      lastSyncTime := c.time } }

/-- The withdrawals of the page, then the delegation and the mint of the fee. -/
def messages : List CosmosMsg :=
  withdrawals deps env.contract.address st.config.bondedDenom
    (pageOf st.syncCursor c.stop st.validators) ++ c.restaked

/-- What it answers. -/
def answer : ExecuteAnswer :=
  .compound c.harvested c.fee (c.stop - st.syncCursor) (decide (c.set.length ≤ c.stop))

theorem still : Still st c.next := .of_write rfl rfl rfl rfl

theorem slots_next : slots c.next.validators = slots st.validators :=
  (slots_restake c.restake_eq).trans (slots_withPage (slots_harvest _))

theorem length_next : c.set.length = st.validators.length := length_eq_of_slots c.slots_next

end Compounded

/-- **A compound, inverted.** -/
theorem executeCompound_ok (h : executeCompound deps env limit st = .ok (st', resp)) :
    ∃ c : Compounded deps env limit st, st' = c.next ∧ resp.messages = c.messages ∧
      resp.data = some c.answer := by
  unfold executeCompound at h
  rw [guard_eq_ok] at h
  simp only [bind_eq_ok, totalBonded_eq_ok, sumOf_eq_ok, pure_eq_ok, add_eq_ok, Prod.exists,
    Prod.mk.injEq, subUsize_eq_ok] at h
  obtain ⟨-, stop, hstop, pool, hpool, acc, hacc, set, messages, fee, hre, processed, ⟨hc, rfl⟩, tb, htb,
    pr, hpr, ts, hts, rfl, rfl⟩ := h
  obtain ⟨hr, hpage, hmsg, hh⟩ := harvest_ok hacc
  rw [hpage] at hre
  refine ⟨⟨stop, pool, acc.harvested, set, messages, fee, tb, pr, ts,
    if set.length ≤ stop then env.time else st.totals.lastSyncTime, hstop, hc, hpool, hr, hh, hre,
    htb, hpr, hts⟩, ?_, ?_, rfl⟩
  · simp only [Compounded.next, decide_eq_true_eq]
  · rw [hmsg, Compounded.messages]

/-! ## The stamp -/

/-- **When a sync stamps the cache**: when it answers that it is done. -/
theorem executeSync_stamp (h : executeSync deps env limit st = .ok (st', resp)) :
    ∃ bonded processed done, resp.data = some (.sync bonded processed done) ∧
      st'.totals.lastSyncTime = if done then env.time else st.totals.lastSyncTime := by
  unfold executeSync at h
  rw [guard_eq_ok] at h
  simp only [bind_eq_ok] at h
  obtain ⟨-, stop, -, page, -, processed, -, tb, -, pr, -, h⟩ := h
  split at h <;> rename_i hd
  · simp only [bind_eq_ok, pure_eq_ok, Prod.mk.injEq] at h
    obtain ⟨_, -, _, rfl, rfl, rfl⟩ := h
    exact ⟨_, _, _, rfl, (if_pos hd).symm⟩
  · simp only [bind_eq_ok, pure_eq_ok, Prod.mk.injEq] at h
    obtain ⟨_, rfl, rfl, rfl⟩ := h
    exact ⟨_, _, _, rfl, (if_neg hd).symm⟩

/-- And a compound. -/
theorem executeCompound_stamp (h : executeCompound deps env limit st = .ok (st', resp)) :
    ∃ harvested fee processed done, resp.data = some (.compound harvested fee processed done) ∧
      st'.totals.lastSyncTime = if done then env.time else st.totals.lastSyncTime := by
  unfold executeCompound at h
  rw [guard_eq_ok] at h
  simp only [bind_eq_ok, Prod.exists, pure_eq_ok, Prod.mk.injEq] at h
  obtain ⟨-, stop, -, pool, -, acc, -, set, messages, fee, -, processed, -, tb, -, pr, -, ts, -, rfl,
    rfl⟩ := h
  exact ⟨_, _, _, _, rfl, rfl⟩

/-! ## The manager -/

/-- **A redelegation**: off the source, then onto the destination, which may be the same entry. -/
inductive Redelegated (denom : String) (acc : RebalanceAcc) (step : RedelegateStep) :
    RebalanceAcc → Prop
  | mk {src dst : ℕ} {v u : ValidatorEntry} {b b' : Uint128}
      (hsrc : positionOf acc.set step.srcValidator = .ok src) (hv : acc.set[src]? = some v)
      (hb : v.bonded.val = b.val + step.amount.val)
      (hdst : positionOf (acc.set.set src { v with bonded := b }) step.dstValidator = .ok dst)
      (hu : (acc.set.set src { v with bonded := b })[dst]? = some u)
      (hb' : b'.val = u.bonded.val + step.amount.val) :
      Redelegated denom acc step
        ⟨(acc.set.set src { v with bonded := b }).set dst { u with bonded := b' },
          acc.messages ++ [.redelegate step.srcValidator step.dstValidator ⟨denom, step.amount⟩]⟩

theorem rebalanceStep_redelegated {allowlist : List String} {denom : String}
    {acc acc' : RebalanceAcc} {step : RedelegateStep}
    (h : rebalanceStep allowlist denom acc step = .ok acc') : Redelegated denom acc step acc' := by
  unfold rebalanceStep at h
  rw [guard_eq_ok] at h
  simp only [bind_eq_ok, modifyEntry_eq_ok, guard_eq_ok, sub_eq_ok, add_eq_ok, pure_eq_ok] at h
  obtain ⟨-, src, hsrc, _, ⟨v, hv, _, ⟨-, b, hb, rfl⟩, rfl⟩, dst, hdst, _,
    ⟨u, hu, _, ⟨b', hb', rfl⟩, rfl⟩, rfl⟩ := h
  exact .mk hsrc hv hb hdst hu hb'

/-- A redelegation moves stake between two entries. -/
theorem rebalanceStep_ok {allowlist : List String} {denom : String} {acc acc' : RebalanceAcc}
    {step : RedelegateStep} (h : rebalanceStep allowlist denom acc step = .ok acc') :
    slots acc'.set = slots acc.set ∧ total (·.bonded) acc'.set = total (·.bonded) acc.set ∧
      total (·.pendingRewards) acc'.set = total (·.pendingRewards) acc.set ∧
      acc'.messages =
        acc.messages ++ [.redelegate step.srcValidator step.dstValidator ⟨denom, step.amount⟩] := by
  obtain ⟨hsrc, hv, hb, hdst, hu, hb'⟩ := rebalanceStep_redelegated h
  rename_i src dst v u b b'
  have hb1 := total_set (·.bonded) { v with bonded := b } hv
  have hb2 := total_set (·.bonded) { u with bonded := b' } hu
  have hp1 := total_set (·.pendingRewards) { v with bonded := b } hv
  have hp2 := total_set (·.pendingRewards) { u with bonded := b' } hu
  refine ⟨?_, ?_, ?_, rfl⟩
  · exact (slots_set hu (by rfl)).trans (slots_set hv (by rfl))
  all_goals simp only at *; omega

/-- A rebalancing plan moves stake inside the set and nothing else. -/
theorem rebalance_ok {allowlist : List String} {denom : String} :
    ∀ {plan : List RedelegateStep} {acc acc' : RebalanceAcc},
      plan.foldlM (rebalanceStep allowlist denom) acc = .ok acc' →
      slots acc'.set = slots acc.set ∧ total (·.bonded) acc'.set = total (·.bonded) acc.set ∧
        total (·.pendingRewards) acc'.set = total (·.pendingRewards) acc.set ∧
        acc'.messages = acc.messages ++ plan.map fun step =>
          .redelegate step.srcValidator step.dstValidator ⟨denom, step.amount⟩ := by
  intro plan
  induction plan with
  | nil =>
    intro acc acc' h
    simp only [List.foldlM_nil, pure_eq_ok] at h
    subst h
    simp
  | cons step plan ih =>
    intro acc acc' h
    rw [List.foldlM_cons, bind_eq_ok] at h
    obtain ⟨mid, hmid, h⟩ := h
    obtain ⟨hs, hb, hp, hm⟩ := rebalanceStep_ok hmid
    obtain ⟨hs', hb', hp', hm'⟩ := ih h
    exact ⟨hs'.trans hs, hb'.trans hb, hp'.trans hp, by rw [hm', hm]; simp⟩

/-- **A weight change appends entries with free slots and no stake.** -/
theorem applyWeights_ok : ∀ (weights : List ValidatorInit) (set : List ValidatorEntry),
    ∃ new : List ValidatorEntry,
      (weights.foldl (fun set w => if set.any (fun e => e.address == w.address) then set
        else set ++ [Validators.newEntry w]) set) = set ++ new ∧
      (new.map (·.address)).Nodup ∧
      ∀ e ∈ new, e.address ∈ weights.map (·.address) ∧ e.address ∉ set.map (·.address) ∧
        e.bonded = 0 ∧ e.pendingRewards = 0 ∧ e.activeUnbondEntries = 0 := by
  intro weights
  induction weights with
  | nil => intro set; exact ⟨[], by simp, by simp, by simp⟩
  | cons w weights ih =>
    intro set
    rw [List.foldl_cons]
    by_cases hw : set.any (fun e => e.address == w.address) = true
    · rw [if_pos hw]
      obtain ⟨new, he, hnd, hnew⟩ := ih set
      refine ⟨new, he, hnd, fun e h => ?_⟩
      obtain ⟨h1, h2⟩ := hnew e h
      exact ⟨by simpa using .inr (by simpa using h1), h2⟩
    · rw [if_neg hw]
      obtain ⟨new, he, hnd, hnew⟩ := ih (set ++ [Validators.newEntry w])
      have hws : w.address ∉ set.map (·.address) := by
        simp only [List.any_eq_true, not_exists, not_and, beq_iff_eq] at hw
        simpa using hw
      refine ⟨Validators.newEntry w :: new, by rw [he]; simp, ?_, ?_⟩
      · rw [List.map_cons, List.nodup_cons]
        refine ⟨fun hmem => ?_, hnd⟩
        obtain ⟨e, he', hea⟩ := List.mem_map.1 hmem
        obtain ⟨-, h2, -⟩ := hnew e he'
        rw [hea] at h2
        simp at h2
      · intro e h
        rcases List.mem_cons.1 h with rfl | h
        · exact ⟨by simp [Validators.newEntry], hws, rfl, rfl, rfl⟩
        · obtain ⟨h1, h2, h3⟩ := hnew e h
          refine ⟨by simpa using .inr (by simpa using h1), fun hm => h2 ?_, h3⟩
          rw [List.map_append]
          exact List.mem_append_left _ hm

theorem reweigh_slot (weights : List ValidatorInit) (e : ValidatorEntry) :
    slot (Validators.reweigh weights e) = slot e ∧
      (Validators.reweigh weights e).bonded = e.bonded ∧
      (Validators.reweigh weights e).pendingRewards = e.pendingRewards := by
  unfold Validators.reweigh
  split <;> exact ⟨rfl, rfl, rfl⟩

/-- What reweighing leaves alone and the new entries have none of adds up to what it did. -/
theorem total_reweighed (f : ValidatorEntry → Uint128) {set new : List ValidatorEntry}
    {weights : List ValidatorInit}
    (he : Validators.applyWeights set weights = set.map (Validators.reweigh weights) ++ new)
    (hkeep : ∀ e, f (Validators.reweigh weights e) = f e) (hnew : ∀ e ∈ new, f e = 0) :
    total f (Validators.applyWeights set weights) = total f set := by
  have hzero : (new.map fun v => (f v).val).sum = 0 := by
    rw [List.sum_eq_zero_iff]
    intro x hx
    obtain ⟨e, h, rfl⟩ := List.mem_map.1 hx
    exact Word.eq_zero_iff.1 (hnew e h)
  unfold total
  rw [he, List.map_append, List.sum_append, hzero, Nat.add_zero, List.map_map]
  congr 1
  exact List.map_congr_left fun e _ => congrArg Word.val (hkeep e)

/-- The slots of a reweighed set: those it had, and free ones. -/
theorem slots_applyWeights (set : List ValidatorEntry) (weights : List ValidatorInit) :
    ∃ new : List String,
      slots (Validators.applyWeights set weights) = slots set ++ new.map (·, 0) ∧ new.Nodup ∧
      (∀ a ∈ new, a ∈ weights.map (·.address) ∧ a ∉ set.map (·.address)) ∧
      total (·.bonded) (Validators.applyWeights set weights) = total (·.bonded) set ∧
      total (·.pendingRewards) (Validators.applyWeights set weights) =
        total (·.pendingRewards) set := by
  obtain ⟨new, he, hnd, hnew⟩ := applyWeights_ok weights (set.map (Validators.reweigh weights))
  have haddr : (set.map (Validators.reweigh weights)).map (·.address) = set.map (·.address) := by
    rw [List.map_map]
    exact List.map_congr_left fun e _ => congrArg Prod.fst (reweigh_slot weights e).1
  refine ⟨new.map (·.address), ?_, hnd, ?_, ?_, ?_⟩
  · unfold Validators.applyWeights slots
    rw [he, List.map_append, List.map_map, List.map_map]
    congr 1
    · exact List.map_congr_left fun e _ => (reweigh_slot weights e).1
    · exact List.map_congr_left fun e h => by simp [slot, (hnew e h).2.2.2.2]
  · intro a ha
    obtain ⟨e, h, rfl⟩ := List.mem_map.1 ha
    obtain ⟨h1, h2, -⟩ := hnew e h
    exact ⟨h1, haddr ▸ h2⟩
  · exact total_reweighed (·.bonded) he (fun e => (reweigh_slot weights e).2.1)
      fun e h => (hnew e h).2.2.1
  · exact total_reweighed (·.pendingRewards) he (fun e => (reweigh_slot weights e).2.2)
      fun e h => (hnew e h).2.2.2.1

/-- The addresses a weight assignment names are on the allowlist and none occurs twice. -/
theorem validateManagedWeights_mem {weights : List ValidatorInit} {allowlist : List String}
    {maxBps : ℕ} (h : Validators.validateManagedWeights weights allowlist maxBps = .ok ()) :
    Validators.validateSet weights = .ok () ∧ ∀ w ∈ weights, w.address ∈ allowlist := by
  unfold Validators.validateManagedWeights at h
  rw [bind_eq_ok] at h
  obtain ⟨_, hv, h⟩ := h
  refine ⟨hv, ?_⟩
  clear hv
  induction weights with
  | nil => simp
  | cons w weights ih =>
    rw [List.foldlM_cons, bind_eq_ok] at h
    obtain ⟨_, hw, h⟩ := h
    rw [guard_eq_ok] at hw
    refine List.forall_mem_cons.2 ⟨by simpa using hw.1, ih h⟩

/-- **A manager call, inverted**: it changes the weights, the fee, or where stake sits. -/
theorem executeManager_ok {m : ManagerMsg} (h : executeManager info m st = .ok (st', resp)) :
    (∃ weights, m = .setWeights weights ∧
      Validators.validateManagedWeights weights st.allowlist
        st.config.limits.maxValidatorWeightBps = .ok () ∧
      st' = { st with validators := Validators.applyWeights st.validators weights } ∧
      resp.messages = []) ∨
    (∃ bps, m = .setPerformanceFee bps ∧ bps ≤ st.config.limits.maxPerformanceFeeBps ∧
      st' = { st with config := { st.config with
        params := { st.config.params with performanceFeeBps := bps } } } ∧
      resp.messages = []) ∨
    (∃ plan acc, m = .rebalance plan ∧
      plan.foldlM (rebalanceStep st.allowlist st.config.bondedDenom) ⟨st.validators, []⟩ = .ok acc ∧
      st' = { st with validators := acc.set } ∧ resp.messages = acc.messages) := by
  unfold executeManager at h
  rw [guard_eq_ok] at h
  obtain ⟨-, h⟩ := h
  cases m with
  | setWeights weights =>
    simp only [bind_eq_ok, pure_eq_ok, Prod.mk.injEq] at h
    obtain ⟨_, hv, rfl, rfl⟩ := h
    exact .inl ⟨weights, rfl, hv, rfl, rfl⟩
  | setPerformanceFee bps =>
    rw [guard_eq_ok] at h
    simp only [Except.ok.injEq, Prod.mk.injEq, not_lt] at h
    obtain ⟨hb, rfl, rfl⟩ := h
    exact .inr (.inl ⟨bps, rfl, hb, rfl, rfl⟩)
  | rebalance plan =>
    simp only [bind_eq_ok, pure_eq_ok, Prod.mk.injEq] at h
    obtain ⟨acc, hacc, rfl, rfl⟩ := h
    exact .inr (.inr ⟨plan, acc, rfl, hacc, rfl, rfl⟩)

theorem executeManager_still {m : ManagerMsg} (h : executeManager info m st = .ok (st', resp)) :
    Still st st' := by
  rcases executeManager_ok h with ⟨_, -, -, rfl, -⟩ | ⟨_, -, -, rfl, -⟩ | ⟨_, _, -, -, rfl, -⟩ <;>
    exact .of_write rfl rfl rfl rfl

/-- The slots after a manager call: those before it, and free ones of allowed validators. -/
theorem executeManager_slots {m : ManagerMsg} (h : executeManager info m st = .ok (st', resp)) :
    ∃ new : List String, slots st'.validators = slots st.validators ++ new.map (·, 0) ∧ new.Nodup ∧
      (∀ a ∈ new, a ∈ st.allowlist ∧ a ∉ st.validators.map (·.address)) ∧
      total (·.bonded) st'.validators = total (·.bonded) st.validators ∧
      total (·.pendingRewards) st'.validators = total (·.pendingRewards) st.validators := by
  rcases executeManager_ok h with
    ⟨weights, -, hv, rfl, -⟩ | ⟨_, -, -, rfl, -⟩ | ⟨plan, acc, -, hacc, rfl, -⟩
  · obtain ⟨new, hs, hnd, hmem, hb, hp⟩ := slots_applyWeights st.validators weights
    refine ⟨new, hs, hnd, fun a ha => ?_, hb, hp⟩
    obtain ⟨hw, hn⟩ := hmem a ha
    obtain ⟨w, hw', rfl⟩ := List.mem_map.1 hw
    exact ⟨(validateManagedWeights_mem hv).2 w hw', hn⟩
  · exact ⟨[], by simp, by simp, by simp, rfl, rfl⟩
  · obtain ⟨hs, hb, hp, -⟩ := rebalance_ok hacc
    exact ⟨[], by simpa using hs, by simp, by simp, hb, hp⟩

end LstCore
