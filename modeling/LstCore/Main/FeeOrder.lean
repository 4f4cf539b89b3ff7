import LstCore.Proof.Compounding
import LstCore.Proof.World

/-!
# The fee and whoever synced first

A sweep of syncs re-reads the whole set and mirrors the supply; a compound re-reads its own
page and takes the rest of the pool, and the supply, as cached. So the fee is the same with
and without a sweep in front of it when those figures divide to the same number of shares
(`fee_order_iff`), as they do when the page covers the set and nothing else has moved
(`figuresAgree_covered`).

* `SyncSweep.read`: what a sweep leaves.
* `Mints.val`, `Swept.fee`: the fee without it and after it.
-/

namespace LstCore

open Lib

variable {deps : Deps} {contract : ContractInfo} {st st' st₁ st₂ : Storage} {limit : Option ℕ}
  {set : List ValidatorEntry} {cursor stop : ℕ}

/-! ## Sweeps -/

/-- Syncs by anyone, at any times and with any limits, until one answers that it is done. -/
inductive SyncSweep (deps : Deps) (contract : ContractInfo) : Storage → Storage → Prop
  | last {st st' : Storage} {time : ℕ} {info : MessageInfo} {limit : Option ℕ} {resp : Response}
      {bonded : Uint128} {processed : ℕ}
      (h : execute deps ⟨time, contract⟩ info (.sync limit) st = .ok (st', resp))
      (ha : resp.data = some (.sync bonded processed true)) : SyncSweep deps contract st st'
  | more {st mid st' : Storage} {time : ℕ} {info : MessageInfo} {limit : Option ℕ} {resp : Response}
      {bonded : Uint128} {processed : ℕ}
      (h : execute deps ⟨time, contract⟩ info (.sync limit) st = .ok (mid, resp))
      (ha : resp.data = some (.sync bonded processed false)) (hs : SyncSweep deps contract mid st') :
      SyncSweep deps contract st st'

/-- A page done, the rest of the sweep starts behind it. -/
theorem withPage_map {f : ValidatorEntry → ValidatorEntry} (hc : cursor ≤ stop)
    (hle : stop ≤ set.length) :
    (withPage cursor stop set ((pageOf cursor stop set).map f)).take stop ++
        ((withPage cursor stop set ((pageOf cursor stop set).map f)).drop stop).map f =
      set.take cursor ++ (set.drop cursor).map f := by
  have hpage : pageOf cursor stop set = (set.drop cursor).take (stop - cursor) := by
    rw [pageOf, List.drop_take]
  -- what is in front of the rest is as long as it was
  have hlen : (set.take cursor ++ (pageOf cursor stop set).map f).length = stop := by
    rw [hpage]
    simp only [List.length_append, List.length_take, List.length_map, List.length_drop]
    omega
  have hrest : set.drop stop = (set.drop cursor).drop (stop - cursor) := by
    rw [List.drop_drop]
    congr 1
    omega
  rw [withPage, if_pos hc, List.take_left' hlen, List.drop_left' hlen, hpage, hrest,
    List.append_assoc, ← List.map_append, List.take_append_drop]

/-- What a sweep that starts at the cursor has made of the storage. -/
structure Swept (deps : Deps) (contract : ContractInfo) (st st' : Storage) : Prop where
  set : st'.validators = st.validators.take st.syncCursor ++
    (st.validators.drop st.syncCursor).map (readEntry deps contract.address st.config.bondedDenom)
  cursor : st'.syncCursor = 0
  config : st'.config = st.config
  supply : mirrorSupply deps st = .ok st'.totals.totalSupply
  owedOpen : st'.totals.scrtOwedOpen = st.totals.scrtOwedOpen
  owedMatured : st'.totals.scrtOwedMatured = st.totals.scrtOwedMatured

/-- **What a sweep leaves**: everything from the cursor on as the chain reports it, and the
supply as the token does. -/
theorem SyncSweep.read (h : SyncSweep deps contract st st') : Swept deps contract st st' := by
  induction h with
  | @last st st' _ _ _ _ _ _ h ha =>
    obtain ⟨s, rfl, -, hd⟩ := executeSync_ok h
    rw [hd, Option.some.injEq, Synced.answer, ExecuteAnswer.sync.injEq] at ha
    -- a page that is done ends where the set does
    have hdone := decide_eq_true_iff.1 ha.2.2
    have hstop : s.stop = st.validators.length := le_antisymm s.stop_le (s.length_next ▸ hdone)
    refine ⟨?_, if_pos hdone, rfl, ?_, rfl, rfl⟩
    · rw [← withPage_map s.cursor_le s.stop_le, List.take_of_length_le (hstop ▸ s.length_next.le),
        List.drop_of_length_le (hstop ▸ s.length_next.le), List.map_nil, List.append_nil]
      rfl
    · have := s.supply_eq
      rwa [if_pos hdone] at this
  | @more st _ _ _ _ _ _ _ _ h ha _ ih =>
    obtain ⟨s, rfl, -, hd⟩ := executeSync_ok h
    rw [hd, Option.some.injEq, Synced.answer, ExecuteAnswer.sync.injEq] at ha
    have hmore := decide_eq_false_iff_not.1 ha.2.2
    have hcursor : s.next.syncCursor = s.stop := if_neg hmore
    have hset := ih.set
    rw [hcursor] at hset
    refine ⟨hset.trans (withPage_map s.cursor_le s.stop_le), ih.cursor, ih.config, ?_, ih.owedOpen,
      ih.owedMatured⟩
    -- a page short of the end leaves the supply as it was
    have hkept := s.supply_eq
    rw [if_neg hmore] at hkept
    rw [← ih.supply]
    simp only [mirrorSupply, Synced.next, hkept]

/-! ## The fee -/

/-- A compound that goes through, at some time and by anyone, and mints the fee. -/
def Mints (deps : Deps) (contract : ContractInfo) (limit : Option ℕ) (st : Storage) (fee : Uint128) :
    Prop :=
  ∃ time info st' resp harvested processed done,
    execute deps ⟨time, contract⟩ info (.compound limit) st = .ok (st', resp) ∧
      resp.data = some (.compound harvested fee processed done)

/-- The validators that a compound at the start of the set harvests. -/
def firstPage (limit : Option ℕ) (st : Storage) : List ValidatorEntry :=
  st.validators.take (max (limit.getD defaultCompoundLimit) 1)

/-- The validators it leaves as they are cached. -/
def afterPage (limit : Option ℕ) (st : Storage) : List ValidatorEntry :=
  st.validators.drop (max (limit.getD defaultCompoundLimit) 1)

/-- The rewards it takes. -/
def firstRewards (deps : Deps) (contract : ContractInfo) (limit : Option ℕ) (st : Storage) : ℕ :=
  rewardsOf deps contract.address st.config.bondedDenom (firstPage limit st)

/-- What the set counts for in the pool with only the page re-read. -/
def cachedStake (deps : Deps) (contract : ContractInfo) (limit : Option ℕ) (st : Storage) : ℕ :=
  total (·.bonded) ((firstPage limit st).map (harvestEntry deps contract.address)) +
    total (·.bonded) (afterPage limit st) + total (·.pendingRewards) (afterPage limit st)

/-- What it counts for with every validator re-read. -/
def reportedStake (deps : Deps) (contract : ContractInfo) (limit : Option ℕ) (st : Storage) : ℕ :=
  (st.validators.map fun v => (stakeAt deps contract.address v.address).val).sum +
    rewardsOf deps contract.address st.config.bondedDenom (afterPage limit st)

/-- The assets of the pool, from what the set counts for. -/
def assetsOf (deps : Deps) (contract : ContractInfo) (st : Storage) (stake : ℕ) : ℕ :=
  stake + ((deps.queryBalance contract.address st.config.bondedDenom).toOption.getD 0).val -
    (st.totals.scrtOwedOpen.val + st.totals.scrtOwedMatured.val)

theorem harvestedSet_first {time : ℕ} (h0 : st.syncCursor = 0)
    (c : Compounded deps ⟨time, contract⟩ limit st) :
    pageOf st.syncCursor c.stop st.validators = firstPage limit st ∧
      harvestedSet deps ⟨time, contract⟩ st c.stop =
        (firstPage limit st).map (harvestEntry deps contract.address) ++ afterPage limit st := by
  have hstop := pageEnd_eq c.stop_eq
  rw [h0, Nat.zero_add] at hstop
  have hpage : pageOf 0 c.stop st.validators = firstPage limit st := by
    rw [pageOf, List.drop_zero, hstop, firstPage, ← List.take_eq_take_min]
  refine ⟨by rw [h0, hpage], ?_⟩
  rw [harvestedSet, h0, hpage, withPage, if_pos (Nat.zero_le _), List.take_zero, List.nil_append,
    afterPage, hstop, ← List.drop_eq_drop_min]

/-- **The fee of a compound at the start of the set**, from the figures it finds cached. -/
theorem Mints.val {fee : Uint128} (h0 : st.syncCursor = 0) (h : Mints deps contract limit st fee) :
    fee.val = feeShares (firstRewards deps contract limit st) st.config.params.performanceFeeBps
      (assetsOf deps contract st (cachedStake deps contract limit st)) st.totals.totalSupply.val := by
  obtain ⟨time, info, next, resp, harvested, processed, done, he, hd⟩ := h
  obtain ⟨c, -, -, hans⟩ := executeCompound_ok he
  rw [hans, Option.some.injEq, Compounded.answer, ExecuteAnswer.compound.injEq] at hd
  obtain ⟨-, rfl, -⟩ := hd
  obtain ⟨hpage, hset⟩ := harvestedSet_first h0 c
  obtain ⟨balance, hb, hliquid, howed⟩ := c.pool_val
  -- the page, once harvested, has nothing pending
  have hrest : total (·.pendingRewards)
      ((firstPage limit st).map (harvestEntry deps contract.address)) = 0 := by
    simp [total, Function.comp_def, harvestEntry]
  have hb : (deps.queryBalance contract.address st.config.bondedDenom).toOption = some balance :=
    toOption_eq_some.2 hb
  rw [c.fee_val, c.harvested_val, hpage, hset, hliquid, howed, firstRewards, assetsOf, cachedStake, hb]
  congr 1
  simp only [total, List.map_append, List.sum_append, Option.getD_some] at hrest ⊢
  omega

/-- A set that has been re-read counts for what the chain reports. -/
theorem Swept.cachedStake_eq (h : Swept deps contract st st') (h0 : st.syncCursor = 0)
    (limit : Option ℕ) :
    firstRewards deps contract limit st' = firstRewards deps contract limit st ∧
      cachedStake deps contract limit st' = reportedStake deps contract limit st := by
  have hset : st'.validators =
      st.validators.map (readEntry deps contract.address st.config.bondedDenom) := by
    rw [h.set, h0, List.take_zero, List.nil_append, List.drop_zero]
  -- what a re-read entry holds, harvested or not
  have hharvest : ∀ v, (harvestEntry deps contract.address
      (readEntry deps contract.address st.config.bondedDenom v)).bonded =
        stakeAt deps contract.address v.address := by
    intro v
    simp only [harvestEntry, readEntry, stakeAt]
    cases delegationOf deps contract.address v.address <;> rfl
  refine ⟨?_, ?_⟩
  · simp only [firstRewards, firstPage, hset, h.config, rewardsOf, ← List.map_take, List.map_map]
    rfl
  · unfold cachedStake reportedStake
    conv_rhs => rw [← List.take_append_drop (max (limit.getD defaultCompoundLimit) 1) st.validators]
    simp only [firstPage, afterPage, hset, total, rewardsOf, ← List.map_take, ← List.map_drop,
      List.map_map, Function.comp_def, hharvest, List.map_append, List.sum_append]
    rfl

/-- **The fee of the same compound after a sweep**, from the figures that are reported. -/
theorem Swept.fee {fee : Uint128} (h : Swept deps contract st st') (h0 : st.syncCursor = 0)
    (hm : Mints deps contract limit st' fee) :
    fee.val = feeShares (firstRewards deps contract limit st) st.config.params.performanceFeeBps
      (assetsOf deps contract st (reportedStake deps contract limit st)) st'.totals.totalSupply.val := by
  obtain ⟨hrewards, hstake⟩ := h.cachedStake_eq h0 limit
  rw [hm.val h.cursor, hrewards, hstake, h.config]
  simp only [assetsOf, h.config, h.owedOpen, h.owedMatured]

/-- The supply the token reports, once one is bound. -/
def mirrored (deps : Deps) (st : Storage) : Uint128 := (mirrorSupply deps st).toOption.getD 0

/-- The value of the fee comes to the same shares of the pool as it is found cached and of the
pool as it is reported. -/
def FiguresAgree (deps : Deps) (contract : ContractInfo) (limit : Option ℕ) (st : Storage) : Prop :=
  let rewards := firstRewards deps contract limit st
  let value := rewards * st.config.params.performanceFeeBps / bpsDenom
  value * st.totals.totalSupply.val /
      (assetsOf deps contract st (cachedStake deps contract limit st) + rewards - value) =
    value * (mirrored deps st).val /
      (assetsOf deps contract st (reportedStake deps contract limit st) + rewards - value)

/-- **A page that covers the set** re-reads all there is: where nothing is cached of a delegation that
is gone and the supply has not moved, the figures agree. -/
theorem figuresAgree_covered (hcover : st.validators.length ≤ max (limit.getD defaultCompoundLimit) 1)
    (hthere : ∀ v ∈ st.validators,
      (delegationOf deps contract.address v.address).isSome ∨ v.bonded = 0)
    (hsupply : mirrored deps st = st.totals.totalSupply) : FiguresAgree deps contract limit st := by
  have hrest : afterPage limit st = [] := List.drop_of_length_le hcover
  have hpage : firstPage limit st = st.validators := List.take_of_length_le hcover
  have hstake : cachedStake deps contract limit st = reportedStake deps contract limit st := by
    simp only [cachedStake, reportedStake, hrest, hpage, total, rewardsOf, List.map_map,
      List.map_nil, List.sum_nil, Nat.add_zero]
    congr 1
    refine List.map_congr_left fun v hv => ?_
    cases hd : delegationOf deps contract.address v.address with
    | some d => simp only [Function.comp_apply, harvestEntry, stakeAt, hd, Option.map_some, Option.getD_some]
    | none =>
      have hzero : v.bonded = 0 := (hthere v hv).resolve_left (by rw [hd]; simp)
      simp only [Function.comp_apply, harvestEntry, stakeAt, hd, Option.map_none, Option.getD_none, hzero]
  rw [FiguresAgree, hstake, hsupply]

/-- **The fee and the sweep.** The fee of a compound at the start of the set is the same with
and without a sweep in front of it exactly when its value comes to the same shares of the pool
as it is cached, with only the page re-read, and of the pool as it is reported. It does where the
page covers the set, nothing is cached of a delegation that is gone and the supply has not moved. -/
theorem fee_order_iff {fee fee' : Uint128} (h0 : st.syncCursor = 0)
    (hs : SyncSweep deps contract st st') (h : Mints deps contract limit st fee)
    (h' : Mints deps contract limit st' fee') :
    (fee = fee' ↔ FiguresAgree deps contract limit st) ∧
    (st.validators.length ≤ max (limit.getD defaultCompoundLimit) 1 →
      (∀ v ∈ st.validators,
        (delegationOf deps contract.address v.address).isSome ∨ v.bonded = 0) →
      mirrored deps st = st.totals.totalSupply → FiguresAgree deps contract limit st) := by
  refine ⟨?_, figuresAgree_covered⟩
  have hswept := hs.read
  have hsupply : mirrored deps st = st'.totals.totalSupply := by
    rw [mirrored, toOption_eq_some.2 hswept.supply, Option.getD_some]
  rw [Word.ext_iff, h.val h0, hswept.fee h0 h', ← hsupply]
  rfl

/-! ## A sync in front -/

/-- What the chain reports once the first validator has earned 10 SCRT and the second 50. -/
def devAccrued : Deps := devView (Uint128.new 110000000)
  [("validatorone", Uint128.new 10000000, Uint128.new 10000000),
    ("validatortwo", Uint128.new 100000000, Uint128.new 50000000)]

/-- Anyone syncs the whole set. -/
def devSweep (w : World) : Option Storage :=
  (execute (w.deps devAccrued 0) w.env ⟨"keeper", []⟩ (.sync none) w.store).toOption.bind fun r =>
    match r.2.data with
    | some (.sync _ _ true) => some r.1
    | _ => none

/-- The fee of a compound with a limit, from a storage of the contract. -/
def devFee (limit : ℕ) (w : World) (st : Storage) : Option Uint128 :=
  (execute (w.deps devAccrued 0) w.env ⟨"keeper", []⟩ (.compound (some limit)) st).toOption.bind fun r =>
    match r.2.data with
    | some (.compound _ fee _ _) => some fee
    | _ => none

theorem devSweep_sound {w : World} (h : devSweep w = some st) :
    SyncSweep (w.deps devAccrued 0) w.self w.store st := by
  obtain ⟨⟨st', resp⟩, hr, h⟩ := Option.bind_eq_some_iff.1 h
  split at h
  · rename_i hd
    rw [Option.some.injEq] at h
    exact h ▸ .last (toOption_eq_some.1 hr) hd
  · simp at h

theorem devFee_sound {limit : ℕ} {w : World} {fee : Uint128} (h : devFee limit w st = some fee) :
    Mints (w.deps devAccrued 0) w.self (some limit) st fee := by
  obtain ⟨⟨st', resp⟩, hr, h⟩ := Option.bind_eq_some_iff.1 h
  split at h
  · rename_i hd
    rw [Option.some.injEq] at h
    exact ⟨_, _, _, _, _, _, _, toOption_eq_some.1 hr, h ▸ hd⟩
  · simp at h

set_option maxRecDepth 10000 in
/-- A compound of the first validator alone mints 738,255 shares; after a sync, which counts the
rewards of the second, it mints 520,094. -/
theorem sync_moves_fee : ¬ ∀ (deps : Deps) (contract : ContractInfo) (limit : Option ℕ)
    (st st' : Storage) (fee fee' : Uint128), Reachable st → st.syncCursor = 0 →
    SyncSweep deps contract st st' → Mints deps contract limit st fee →
    Mints deps contract limit st' fee' → fee = fee' := by
  have hrun : ([devBootstrap, devDeposit].foldlM World.step devWorld).map (fun w =>
      (w.store.syncCursor, devFee 1 w w.store, (devSweep w).map (devFee 1 w))) =
      some (0, some (Uint128.new 738255), some (some (Uint128.new 520094))) := by decide +kernel
  obtain ⟨w, hw, hs⟩ := Option.map_eq_some_iff.1 hrun
  simp only [Prod.mk.injEq, Option.map_eq_some_iff] at hs
  obtain ⟨h0, hfirst, st', hsweep, hlater⟩ := hs
  intro hall
  exact absurd (hall _ _ _ _ _ _ _ (World.replay_reachable devWorld_fresh hw) h0
    (devSweep_sound hsweep) (devFee_sound hfirst) (devFee_sound hlater)) (by decide)

set_option maxRecDepth 10000 in
/-- With a page that covers the set the fee stays where it is. -/
theorem fee_order_iff_covered : ∃ (deps : Deps) (contract : ContractInfo) (st st' : Storage)
    (fee fee' : Uint128), SyncSweep deps contract st st' ∧ Mints deps contract (some 4) st fee ∧
    Mints deps contract (some 4) st' fee' ∧ fee.val = 3196125 ∧
    FiguresAgree deps contract (some 4) st ∧ fee = fee' := by
  have hrun : ([devBootstrap, devDeposit].foldlM World.step devWorld).map (fun w =>
      (w.store.syncCursor, devFee 4 w w.store, (devSweep w).map (devFee 4 w))) =
      some (0, some (Uint128.new 3196125), some (some (Uint128.new 3196125))) := by decide +kernel
  have hcovered : ([devBootstrap, devDeposit].foldlM World.step devWorld).map (fun w =>
      (w.store.validators.length, decide (∀ v ∈ w.store.validators,
        (delegationOf (w.deps devAccrued 0) w.self.address v.address).isSome = true ∨ v.bonded = 0),
        decide (mirrored (w.deps devAccrued 0) w.store = w.store.totals.totalSupply))) =
      some (4, true, true) := by decide +kernel
  obtain ⟨w, hw, hs⟩ := Option.map_eq_some_iff.1 hrun
  simp only [Prod.mk.injEq, Option.map_eq_some_iff] at hs
  obtain ⟨h0, hfirst, st', hsweep, hlater⟩ := hs
  rw [hw, Option.map_some, Option.some.injEq] at hcovered
  simp only [Prod.mk.injEq, decide_eq_true_eq] at hcovered
  obtain ⟨hlen, hthere, hsupply⟩ := hcovered
  have hs := devSweep_sound hsweep
  obtain ⟨hiff, hagree⟩ := fee_order_iff h0 hs (devFee_sound hfirst) (devFee_sound hlater)
  have hfigures := hagree hlen.le hthere hsupply
  exact ⟨_, _, _, _, _, _, hs, devFee_sound hfirst, devFee_sound hlater, rfl, hfigures,
    hiff.2 hfigures⟩

end LstCore
