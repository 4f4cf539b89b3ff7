import LstCore.Main.FeeOrder

/-!
# A full compound and a full sync

A sync caches no stake for a delegation that is gone; a compound leaves what is cached of it. So a
compound whose page covers the set leaves what a sync would, and the harvest on the validator it
restakes to, exactly when nothing is cached of the delegations that are gone
(`compound_refreshes_iff`).
-/

namespace LstCore

open Lib

variable {deps : Deps} {env : Env} {info : MessageInfo} {st st' : Storage} {resp : Response}
  {limit : Option ℕ}

/-- Every stake is cached as a sync would cache it, and the harvest on top of the one validator
that it is restaked to. -/
def RefreshedAsSync (deps : Deps) (env : Env) (st' : Storage) (resp : Response) : Prop :=
  ∃ harvested fee processed done target,
    resp.data = some (.compound harvested fee processed done) ∧
    (harvested = 0 ∨ delegateMsg target st'.config.bondedDenom harvested ∈ resp.messages) ∧
    ∀ v ∈ st'.validators, ∃ r,
      readDelegation deps env.contract.address st'.config.bondedDenom v = .ok r ∧
      v.bonded.val = r.bonded.val + if v.address = target then harvested.val else 0

/-- Where no validator has rewards, a sync of the whole set leaves the same set and the same
totals. -/
def LeavesWhatSyncLeaves (deps : Deps) (env : Env) (st st' : Storage) : Prop :=
  (∀ v ∈ st.validators, rewardsAt deps env.contract.address st.config.bondedDenom v.address = 0) →
    ∀ info limit synced resp, st.validators.length ≤ max (limit.getD defaultSyncLimit) 1 →
      execute deps env info (.sync limit) st = .ok (synced, resp) →
      st'.validators = synced.validators ∧ st'.totals.totalBonded = synced.totals.totalBonded ∧
        st'.totals.pendingRewards = synced.totals.pendingRewards ∧
        st'.totals.lastSyncTime = synced.totals.lastSyncTime

/-- Nothing is cached of the delegations that are gone. -/
def ForgetsGone (deps : Deps) (env : Env) (st : Storage) : Prop :=
  ∀ v ∈ st.validators, deps.queryDelegation env.contract.address v.address = .ok none → v.bonded = 0

/-! ## A page that covers the set -/

theorem pageOf_all {set : List ValidatorEntry} {stop : ℕ} (h : set.length ≤ stop) :
    pageOf 0 stop set = set := by
  rw [pageOf, List.drop_zero, List.take_of_length_le h]

theorem withPage_all {set page : List ValidatorEntry} {stop : ℕ} (h : set.length ≤ stop) :
    withPage 0 stop set page = page := by
  rw [withPage, if_pos (Nat.zero_le _), List.take_zero, List.nil_append, List.drop_of_length_le h,
    List.append_nil]

/-- **A compound that covers the set** harvests all of it. -/
theorem Compounded.covers (c : Compounded deps env limit st) (h0 : st.syncCursor = 0)
    (hcover : st.validators.length ≤ max (limit.getD defaultCompoundLimit) 1) :
    harvestedSet deps env st c.stop = st.validators.map (harvestEntry deps env.contract.address) ∧
      c.harvested.val = rewardsOf deps env.contract.address st.config.bondedDenom st.validators ∧
      Readable deps env.contract.address st.validators := by
  have hend := pageEnd_eq c.stop_eq
  have hstop : st.validators.length ≤ c.stop := by omega
  have hpage : pageOf st.syncCursor c.stop st.validators = st.validators := by
    rw [h0, pageOf_all hstop]
  refine ⟨?_, hpage ▸ c.harvested_val, hpage ▸ c.readable⟩
  rw [harvestedSet, hpage, h0, withPage_all hstop]

/-- **A sync that covers the set** reads all of it. -/
theorem Synced.covers (s : Synced deps env limit st) (h0 : st.syncCursor = 0)
    (hcover : st.validators.length ≤ max (limit.getD defaultSyncLimit) 1) :
    syncedSet deps env st s.stop =
      st.validators.map (readEntry deps env.contract.address st.config.bondedDenom) := by
  have hend := pageEnd_eq s.stop_eq
  have hstop : st.validators.length ≤ s.stop := by omega
  rw [syncedSet, h0, pageOf_all hstop, withPage_all hstop]

/-- What the harvest leaves of an entry, where its delegation is there and where it is gone. -/
theorem harvestEntry_bonded {contract : Addr} {v : ValidatorEntry} :
    (harvestEntry deps contract v).bonded =
      if delegationOf deps contract v.address = none then v.bonded
      else stakeAt deps contract v.address := by
  unfold harvestEntry stakeAt
  cases delegationOf deps contract v.address <;> rfl

/-- **A compound that covers the set, entry by entry**: each holds what its delegation does, or
what was cached of it where that is gone, and the harvest is on top of the one it went to. -/
theorem Compounded.placed (c : Compounded deps env limit st) (hr : Reachable st)
    (h0 : st.syncCursor = 0)
    (hcover : st.validators.length ≤ max (limit.getD defaultCompoundLimit) 1) :
    ∃ target, (c.harvested = 0 ∨
        delegateMsg target st.config.bondedDenom c.harvested ∈ c.messages) ∧
      (c.harvested ≠ 0 → ∀ u, delegateMsg u st.config.bondedDenom c.harvested ∈ c.messages →
        u = target) ∧
      List.Forall₂ (fun v v' => v'.address = v.address ∧
        v'.bonded.val = (harvestEntry deps env.contract.address v).bonded.val +
          if v.address = target then c.harvested.val else 0) st.validators c.set := by
  obtain ⟨hset, -, -⟩ := c.covers h0 hcover
  have hmsgs : c.messages = withdrawals deps env.contract.address st.config.bondedDenom
    (pageOf st.syncCursor c.stop st.validators) ++ c.restaked := rfl
  rcases restake_ok c.restake_eq with ⟨hz, hs, -, -⟩ | ⟨hnz, _, target, fee, -, hp, -, hfee, hm⟩
  · refine ⟨"", .inl hz, fun hnz => absurd hz hnz, ?_⟩
    rw [hs, hset, List.forall₂_map_right_iff]
    refine List.forall₂_same.2 fun v _ => ⟨rfl, ?_⟩
    rw [hz]
    split <;> rfl
  · refine ⟨target, .inr ?_, fun _ u hu => ?_, ?_⟩
    · rw [hmsgs, hm]
      exact List.mem_append_right _ List.mem_cons_self
    · -- a withdrawal is no delegation, and neither is a mint
      rw [hmsgs, hm, List.mem_append, List.mem_cons] at hu
      rcases hu with hu | hu | hu
      · obtain ⟨v, -, hv⟩ := List.mem_map.1 hu
        cases hv
      · cases hu
        rfl
      · rcases feeMessages_ok hfee with rfl | ⟨_, _, rfl⟩
        · exact absurd hu List.not_mem_nil
        · rw [List.mem_singleton] at hu
          cases hu
    · rw [hset] at hp
      have hnd : ((st.validators.map (harvestEntry deps env.contract.address)).map
          (·.address)).Nodup := by
        rw [List.map_map]
        exact addresses_eq st.validators ▸ hr.slotted.distinct
      exact List.forall₂_map_left_iff.1 (placeStake_forall₂ hp hnd)

/-- What the harvest leaves of the entries, where nothing is cached of what is gone. -/
theorem ForgetsGone.harvested (hgone : ForgetsGone deps env st)
    (hread : Readable deps env.contract.address st.validators) {v : ValidatorEntry}
    (hv : v ∈ st.validators) :
    (harvestEntry deps env.contract.address v).bonded = stakeAt deps env.contract.address v.address := by
  rw [harvestEntry_bonded]
  split
  · rename_i hnone
    obtain ⟨d, hd⟩ := hread v hv
    rw [delegationOf, hd] at hnone
    subst hnone
    rw [hgone v hv hd, stakeAt, delegationOf, hd]
    rfl
  · rfl

/-- **What a compound that covers the set caches** is what a sync would and the harvest, exactly
where nothing is cached of the delegations that are gone. -/
theorem refreshedAsSync_iff (c : Compounded deps env limit st) (hr : Reachable st)
    (h0 : st.syncCursor = 0) (hcover : st.validators.length ≤ max (limit.getD defaultCompoundLimit) 1)
    (hm : resp.messages = c.messages) (hd : resp.data = some c.answer) :
    RefreshedAsSync deps env c.next resp ↔ ForgetsGone deps env st := by
  obtain ⟨target, hin, huniq, hall⟩ := c.placed hr h0 hcover
  obtain ⟨-, -, hread⟩ := c.covers h0 hcover
  constructor
  · rintro ⟨harvested, fee, processed, done, target', ha, hin', hset⟩ v hv hgone
    rw [hd, Option.some.injEq, Compounded.answer, ExecuteAnswer.compound.injEq] at ha
    obtain ⟨rfl, -⟩ := ha
    obtain ⟨v', hv', haddr, hb⟩ := exists_of_forall₂ hall.flip hv
    obtain ⟨r, hr, hb'⟩ := hset v' hv'
    obtain ⟨-, rfl⟩ := readDelegation_eq_ok.1 hr
    have hnone : delegationOf deps env.contract.address v.address = none := by
      rw [delegationOf, hgone]
    -- what was cached of it is still there, beside the harvest if it went to it
    rw [harvestEntry_bonded, if_pos hnone] at hb
    simp only [readEntry, haddr, stakeAt, hnone, Option.map_none, Option.getD_none] at hb'
    have htarget : (if v.address = target then c.harvested.val else 0) =
        if v.address = target' then c.harvested.val else 0 := by
      by_cases hz : c.harvested = 0
      · rw [hz]
        split <;> split <;> rfl
      · rw [huniq hz target' (hm ▸ hin'.resolve_left hz)]
    have hzero : (0 : Uint128).val = 0 := rfl
    exact Word.eq_zero_iff.2 (by omega)
  · intro hgone
    refine ⟨c.harvested, c.fee, _, _, target, hd, hm ▸ hin, fun v' hv' => ?_⟩
    obtain ⟨v, hv, haddr, hb⟩ := exists_of_forall₂ hall hv'
    obtain ⟨d, hdel⟩ := hread v hv
    refine ⟨_, readDelegation_eq_ok.2 ⟨⟨d, by rw [haddr, hdel]⟩, rfl⟩, ?_⟩
    rw [hb, haddr, hgone.harvested hread hv, readEntry, haddr]

/-- **With nothing to harvest**, it leaves what a sync of the whole set does. -/
theorem leavesWhatSyncLeaves (c : Compounded deps env limit st) (h0 : st.syncCursor = 0)
    (hcover : st.validators.length ≤ max (limit.getD defaultCompoundLimit) 1)
    (h : executeCompound deps env limit st = .ok (c.next, resp)) (hd' : resp.data = some c.answer)
    (hgone : ForgetsGone deps env st) :
    LeavesWhatSyncLeaves deps env st c.next := by
  intro hnone info limit' synced resp' hcover' hsync
  obtain ⟨hset, hh, hread⟩ := c.covers h0 hcover
  obtain ⟨s, rfl, -, hd⟩ := executeSync_ok hsync
  have hread' := s.covers h0 hcover'
  -- there is nothing to restake
  have hz : c.harvested = 0 := by
    refine Word.eq_zero_iff.2 (hh.trans (List.sum_eq_zero fun n hn => ?_))
    obtain ⟨v, hv, rfl⟩ := List.mem_map.1 hn
    rw [hnone v hv]
    rfl
  have hsame : c.set = syncedSet deps env st s.stop := by
    rcases restake_ok c.restake_eq with ⟨-, hs, -⟩ | ⟨hnz, -⟩
    · rw [hs, hset, hread']
      refine List.map_congr_left fun v hv => ?_
      have hb : ((delegationOf deps env.contract.address v.address).map (·.amount.amount)).getD
          v.bonded = stakeAt deps env.contract.address v.address := hgone.harvested hread hv
      rw [readEntry, harvestEntry, hb, hnone v hv]
    · exact absurd hz hnz
  refine ⟨hsame, Word.ext ?_, Word.ext ?_, ?_⟩
  · exact c.bonded_val.trans (hsame ▸ s.bonded_val.symm)
  · exact c.pending_val.trans (hsame ▸ s.pending_val.symm)
  · -- both have read the whole set
    have hstop : c.set.length ≤ c.stop := by
      have := pageEnd_eq c.stop_eq
      have := c.length_next
      omega
    have hstop' : (syncedSet deps env st s.stop).length ≤ s.stop := by
      have := pageEnd_eq s.stop_eq
      have := s.length_next
      omega
    obtain ⟨_, _, _, _, ha, ht⟩ := executeCompound_stamp h
    obtain ⟨_, _, _, ha', ht'⟩ := executeSync_stamp hsync
    rw [hd', Option.some.injEq, Compounded.answer, ExecuteAnswer.compound.injEq] at ha
    rw [hd, Option.some.injEq, Synced.answer, ExecuteAnswer.sync.injEq] at ha'
    obtain ⟨-, -, -, rfl⟩ := ha
    obtain ⟨-, -, rfl⟩ := ha'
    rw [ht, ht', if_pos (decide_eq_true hstop), if_pos (decide_eq_true hstop')]

/-- **A full compound and a full sync.** From a reachable state with the cursor at the start, a
compound whose page covers the set caches what a sync would, and the harvest on the validator that
it restakes to, and leaves what the sync leaves where there is nothing to harvest, exactly when
nothing is cached of the delegations that are gone. -/
theorem compound_refreshes_iff (hr : Reachable st) (h0 : st.syncCursor = 0)
    (hcover : st.validators.length ≤ max (limit.getD defaultCompoundLimit) 1)
    (h : execute deps env info (.compound limit) st = .ok (st', resp)) :
    (RefreshedAsSync deps env st' resp ∧ LeavesWhatSyncLeaves deps env st st') ↔
      ForgetsGone deps env st := by
  obtain ⟨c, rfl, hm, hd⟩ := executeCompound_ok h
  constructor
  · rintro ⟨hread, -⟩
    exact (refreshedAsSync_iff c hr h0 hcover hm hd).1 hread
  · intro hgone
    exact ⟨(refreshedAsSync_iff c hr h0 hcover hm hd).2 hgone,
      leavesWhatSyncLeaves c h0 hcover h hd hgone⟩

/-- The cached stake of each validator after a full compound and after a full sync. -/
def devRefreshed (view : Deps) (w : World) : Option (List ℕ × List ℕ) := do
  let deps := w.deps view 0
  let c ← (execute deps w.env ⟨"keeper", []⟩ (.compound (some 4)) w.store).toOption
  let s ← (execute deps w.env ⟨"keeper", []⟩ (.sync (some 4)) w.store).toOption
  pure (c.1.validators.map (·.bonded.val), s.1.validators.map (·.bonded.val))

set_option maxRecDepth 10000 in
/-- With every delegation where the cache has it, a full compound caches what a full sync does. -/
theorem compound_refreshes_iff_bonded : ∃ (w : World) (st' : Storage) (resp : Response),
    Reachable w.store ∧
    devRefreshed devBonded w = some ([10000000, 100000000, 0, 0], [10000000, 100000000, 0, 0]) ∧
    RefreshedAsSync (w.deps devBonded 0) w.env st' resp ∧
    LeavesWhatSyncLeaves (w.deps devBonded 0) w.env w.store st' := by
  have hrun : ([devBootstrap, devDeposit].foldlM World.step devWorld).map (fun w =>
      ((w.store.syncCursor, w.store.validators.length), devRefreshed devBonded w,
        w.store.validators.all fun v => decide (v.bonded = 0) ||
          (delegationOf (w.deps devBonded 0) w.env.contract.address v.address).isSome)) =
      some ((0, 4), some ([10000000, 100000000, 0, 0], [10000000, 100000000, 0, 0]), true) := by
    decide +kernel
  obtain ⟨w, hw, hs⟩ := Option.map_eq_some_iff.1 hrun
  simp only [Prod.mk.injEq, List.all_eq_true, Bool.or_eq_true, decide_eq_true_eq] at hs
  obtain ⟨⟨hcursor, hlen⟩, hshown, hall⟩ := hs
  have hreach := World.replay_reachable devWorld_fresh hw
  have hok := hshown
  simp only [devRefreshed, Option.bind_eq_bind, Option.bind_eq_some_iff, toOption_eq_some] at hok
  obtain ⟨⟨st', resp⟩, h, -⟩ := hok
  have hcover : w.store.validators.length ≤ max ((some 4).getD defaultCompoundLimit) 1 := hlen.le
  refine ⟨w, st', resp, hreach, hshown, (compound_refreshes_iff hreach hcursor hcover h).2 ?_⟩
  intro v hv hgone
  refine (hall v hv).resolve_right ?_
  rw [delegationOf, hgone]
  simp

/-- What the chain reports once the second delegation is gone. -/
def devGone : Deps :=
  devView (Uint128.new 110000000) [("validatorone", Uint128.new 10000000, 0)]

set_option maxRecDepth 10000 in
/-- Once the second delegation is gone, a sync caches nothing for it and a full compound goes on
caching the 100 SCRT. -/
theorem compound_keeps_gone : ∃ (w : World) (st' : Storage) (resp : Response),
    Reachable w.store ∧ w.store.syncCursor = 0 ∧ w.store.validators.length ≤ 4 ∧
    execute (w.deps devGone 0) w.env ⟨"keeper", []⟩ (.compound (some 4)) w.store = .ok (st', resp) ∧
    devRefreshed devGone w = some ([10000000, 100000000, 0, 0], [10000000, 0, 0, 0]) ∧
    ¬ RefreshedAsSync (w.deps devGone 0) w.env st' resp ∧
    ¬ LeavesWhatSyncLeaves (w.deps devGone 0) w.env w.store st' := by
  have hrun : ([devBootstrap, devDeposit].foldlM World.step devWorld).map (fun w =>
      ((w.store.syncCursor, w.store.validators.length), devRefreshed devGone w,
        w.store.validators.all fun v => decide
          (rewardsAt (w.deps devGone 0) w.env.contract.address w.store.config.bondedDenom v.address = 0))) =
      some ((0, 4), some ([10000000, 100000000, 0, 0], [10000000, 0, 0, 0]), true) := by decide +kernel
  obtain ⟨w, hw, hs⟩ := Option.map_eq_some_iff.1 hrun
  simp only [Prod.mk.injEq, List.all_eq_true, decide_eq_true_eq] at hs
  obtain ⟨⟨hcursor, hlen⟩, hshown, hnone⟩ := hs
  have hreach := World.replay_reachable devWorld_fresh hw
  have hok := hshown
  simp only [devRefreshed, Option.bind_eq_bind, Option.bind_eq_some_iff, toOption_eq_some] at hok
  obtain ⟨⟨st', resp⟩, h, ⟨synced, resp'⟩, hsync, hlists⟩ := hok
  simp only [Option.pure_def, Option.some.injEq, Prod.mk.injEq] at hlists
  obtain ⟨hst', hsynced⟩ := hlists
  have hdiff : ¬ LeavesWhatSyncLeaves (w.deps devGone 0) w.env w.store st' := by
    intro hleaves
    obtain ⟨hset, -⟩ := hleaves hnone _ (some 4) _ _ hlen.le hsync
    rw [hset, hsynced] at hst'
    exact absurd hst' (by decide)
  have hcover : w.store.validators.length ≤ max ((some 4).getD defaultCompoundLimit) 1 := hlen.le
  refine ⟨w, st', resp, hreach, hcursor, hlen.le, h, hshown, fun hread => hdiff ?_, hdiff⟩
  obtain ⟨c, rfl, hm, hd⟩ := executeCompound_ok h
  exact leavesWhatSyncLeaves c hcursor hcover h hd
    ((refreshedAsSync_iff c hreach hcursor hcover hm hd).1 hread)

end LstCore
