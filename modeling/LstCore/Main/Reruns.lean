import LstCore.Main.Batches
import LstCore.Main.Refreshing
import LstCore.Proof.Blocks

/-!
# Running upkeep twice

`protocol.ts` promises that every upkeep task is idempotent: the contract refuses what is not due, and
running one twice is harmless. Of two runs of the same tasks in one block, by whomever, the second is
refused or leaves everything as it finds it (`rerun_harmless`), where a page covers the set and the
windows that are due and nothing is cached of a delegation that is gone. Where something is, a second
compound reads what the first has restaked there (`compound_reads_again`).

* `compound_books`: what a compound books on the set is what its messages stake.
* `runTask_done`: a task that is run is done, and leaves the others done.
* `idle_of_done`: a task that is done changes nothing.
* `runTask_shuts`: after an `AdvanceWindow` no other goes through in that block.
-/

namespace LstCore

open Lib

namespace Chain

variable {c c' : Chain} {view : Deps} {v : ValidatorEntry} {limit : Option ℕ}

/-- The cache is the chain's, as read in this block, and no pass over the set is under way. -/
structure UpToDate (c : Chain) : Prop where
  cursor : c.store.syncCursor = 0
  stamp : c.store.totals.lastSyncTime = c.now
  agrees : Agrees c.store.validators c

/-- Nothing is cached of a delegation that is gone. -/
def Delegated (c : Chain) : Prop :=
  ∀ v ∈ c.store.validators, c.stakes.lookup v.address = none → v.bonded = 0

/-- The validators have no rewards that a compound could take. -/
def Reaped (c : Chain) : Prop := ∀ v ∈ c.store.validators, (c.stakeOf v.address).rewards = 0

/-- The windows that are due, in order. -/
def dueWindows (c : Chain) : List ℕ :=
  c.store.activeWindows.filter fun id => dueIn c.store.windows c.now id

theorem bonded_of_agrees (h : Agrees c.store.validators c) (hv : v ∈ c.store.validators) :
    v.bonded = (c.stakeOf v.address).amount := (congrArg (·.bonded) (h v hv)).symm

theorem pending_of_agrees (h : Agrees c.store.validators c) (hv : v ∈ c.store.validators) :
    v.pendingRewards = (c.stakeOf v.address).rewards := (congrArg (·.pendingRewards) (h v hv)).symm

theorem Delegated.of_agrees (h : Agrees c.store.validators c) : Delegated c := by
  intro v hv hs
  rw [bonded_of_agrees h hv, stakeOf, hs]
  rfl

/-- So a compound reads what a sync does. -/
theorem Delegated.reap (h : Delegated c) (hv : v ∈ c.store.validators) :
    (c.reap v).bonded = (c.stakeOf v.address).amount := by
  unfold Chain.reap stakeOf
  cases hs : c.stakes.lookup v.address with
  | none => exact h v hv hs
  | some s => rfl

/-- Windows and time as they were: the same are due. -/
theorem dueWindows_congr (hq : c'.store.queue = c.store.queue) (hnow : c'.now = c.now) :
    c'.dueWindows = c.dueWindows := by
  have hw : c'.store.windows = c.store.windows := congrArg Queue.windows hq
  have ha : c'.store.activeWindows = c.store.activeWindows := congrArg Queue.activeWindows hq
  unfold dueWindows
  rw [hw, ha, hnow]

/-- **A compound that covers the set** reaps all of it. -/
theorem harvestedSet_all (h0 : c.store.syncCursor = 0)
    (k : Compounded (c.deps view) c.env limit c.store)
    (hcover : c.store.validators.length ≤ max (limit.getD defaultCompoundLimit) 1) :
    harvestedSet (c.deps view) c.env c.store k.stop = c.store.validators.map c.reap := by
  rw [← harvestEntry_eq view]
  exact (k.covers h0 hcover).1

/-- **What a compound books** on a set that it reads whole is what its messages stake, and they take
nothing from a delegation. -/
theorem compound_books (hR : c.Reaches) (h0 : c.store.syncCursor = 0)
    (k : Compounded (c.deps view) c.env limit c.store)
    (hcover : c.store.validators.length ≤ max (limit.getD defaultCompoundLimit) 1) :
    Carried k.messages (c.store.validators.map c.reap) k.set ∧ ∀ u, outBy k.messages u = 0 := by
  have hset := harvestedSet_all h0 k hcover
  have hread : Stakeless (withdrawals (c.deps view) c.env.contract.address
      c.store.config.bondedDenom (pageOf c.store.syncCursor k.stop c.store.validators)) :=
    stakeless_withdrawals _ _ _
  rw [Compounded.messages]
  rcases restake_ok k.restake_eq with ⟨-, hs, hnil, -⟩ | ⟨-, _, validator, fee, -, hplace, -, hf, hmsg⟩
  · rw [hnil, List.append_nil, hs, hset]
    exact ⟨hread.carried rfl, hread.out_eq⟩
  · have hfee : Stakeless fee := by
      rcases feeMessages_ok hf with rfl | ⟨_, _, rfl⟩
      · exact stakeless_nil
      · exact stakeless_token _ _
    rw [hset] at hplace
    have hplaced := placeStake_carried c.store.config.bondedDenom hplace (by
      rw [List.map_map]
      exact hR.nodup)
    rw [hmsg]
    refine ⟨(hread.carried rfl).trans (hplaced.trans (hfee.carried rfl)), fun u => ?_⟩
    rw [outBy_append, hread.out_eq]
    have hrest := hfee.out_eq u
    unfold outBy at hrest ⊢
    rw [List.map_cons, List.sum_cons, hrest]
    rfl

end Chain

namespace Browser

open Chain

variable {c c' c₁ c₂ : Chain} {view view' : Deps} {sender sender' : Addr} {task : UpkeepTask}
  {tasks tasks' : List UpkeepTask}

/-- Nothing is left for a task to do. -/
def Done (c : Chain) : UpkeepTask → Prop
  | .compound => UpToDate c ∧ Reaped c
  | .advanceWindow => ∀ w, ¬ Overdue c.env c.store w
  | .collectMatured => c.dueWindows = []
  | .sync => UpToDate c

/-- One page does for the set, and one for the windows that are due. -/
structure Ready (c : Chain) : Prop where
  reaches : c.Reaches
  cursor : c.store.syncCursor = 0
  delegated : Delegated c
  few : c.dueWindows.length ≤ maxValidators

/-! ## Sync -/

/-- **A sync that covers the set.** -/
theorem synced (hR : c.Reaches) (h0 : c.store.syncCursor = 0)
    (h : runTask view sender c .sync = some c') :
    ∃ s : Synced (c.deps view) c.env (some maxValidators) c.store, c' = { c with store := s.next } ∧
      s.next.validators = c.store.validators.map c.read ∧ s.next.syncCursor = 0 ∧
      s.next.totals.lastSyncTime = c.now ∧ s.supply = c.supply := by
  obtain ⟨-, store, resp, he, hr⟩ := runTask_eq_some.1 h
  obtain ⟨s, rfl, hm, hd⟩ := executeSync_ok he
  obtain rfl := Left.of_silent hm hr
  have hcover : c.store.validators.length ≤ max maxValidators 1 := le_max_of_le_left (length_le hR)
  have hset : s.next.validators = c.store.validators.map c.read := by
    rw [← readEntry_eq view]
    exact s.covers h0 hcover
  have hend := pageEnd_eq s.stop_eq
  have hlen : (syncedSet (c.deps view) c.env c.store s.stop).length ≤ s.stop := by
    rw [s.length_next, hend, h0, Nat.zero_add]
    exact Nat.le_min.2 ⟨hcover, Nat.le_refl _⟩
  obtain ⟨_, _, done, hdata, hstamp⟩ := executeSync_stamp he
  rw [hd] at hdata
  obtain ⟨-, -, hdone⟩ := ExecuteAnswer.sync.inj (Option.some.inj hdata)
  have hsupply := s.supply_eq
  rw [if_pos hlen, mirrorSupply_eq hR.mirror.supply view] at hsupply
  refine ⟨s, rfl, hset, if_pos hlen, ?_, (Except.ok.inj hsupply).symm⟩
  rw [hstamp, ← hdone, decide_eq_true hlen]
  rfl

/-- **A sync of what is up to date** changes nothing. -/
theorem sync_idle (hR : c.Reaches) (hd : UpToDate c) (h : runTask view sender c .sync = some c') :
    c' = c := by
  obtain ⟨s, rfl, hset, hcursor, hstamp, hsupply⟩ := synced hR hd.cursor h
  have hM := hR.reachable.mirrored
  have hvalidators : s.next.validators = c.store.validators := by
    rw [hset, List.map_congr_left hd.agrees, List.map_id']
  have hbonded : s.bonded = c.store.totals.totalBonded :=
    Word.ext (by rw [s.bonded_val, hM.bonded]; exact congrArg (total (·.bonded)) hvalidators)
  have hpending : s.pending = c.store.totals.pendingRewards :=
    Word.ext (by rw [s.pending_val, hM.pending]; exact congrArg (total (·.pendingRewards)) hvalidators)
  have htime : s.time = c.store.totals.lastSyncTime := hstamp.trans hd.stamp.symm
  have hnext : s.next = c.store := by
    rw [show s.next = { c.store with
      validators := s.next.validators
      syncCursor := s.next.syncCursor
      totals := { c.store.totals with
        totalBonded := s.bonded, pendingRewards := s.pending, totalSupply := s.supply,
        lastSyncTime := s.time } } from rfl]
    rw [hvalidators, hcursor, ← hd.cursor, hbonded, hpending, hsupply, ← hR.mirror.supply, htime]
  rw [hnext]

/-! ## Compound -/

/-- **A compound that covers the set.** -/
theorem compounded (hR : c.Reaches) (h0 : c.store.syncCursor = 0)
    (h : runTask view sender c .compound = some c') :
    ∃ k : Compounded (c.deps view) c.env (some maxValidators) c.store,
      k.messages.foldlM run { c with store := k.next } = some c' ∧ k.next.syncCursor = 0 ∧
        k.next.totals.lastSyncTime = c.now ∧
        pageOf c.store.syncCursor k.stop c.store.validators = c.store.validators := by
  obtain ⟨-, store, resp, he, hr⟩ := runTask_eq_some.1 h
  obtain ⟨k, rfl, hm, hd⟩ := executeCompound_ok he
  rw [hm] at hr
  have hcover : c.store.validators.length ≤ max maxValidators 1 := le_max_of_le_left (length_le hR)
  have hend := pageEnd_eq k.stop_eq
  have hstop : c.store.validators.length ≤ k.stop := by
    rw [hend, h0, Nat.zero_add]
    exact Nat.le_min.2 ⟨hcover, Nat.le_refl _⟩
  have hlen : k.set.length ≤ k.stop := k.length_next ▸ hstop
  obtain ⟨_, _, _, done, hdata, hstamp⟩ := executeCompound_stamp he
  rw [hd] at hdata
  obtain ⟨-, -, -, hdone⟩ := ExecuteAnswer.compound.inj (Option.some.inj hdata)
  refine ⟨k, hr, if_pos hlen, ?_, by rw [h0, pageOf_all hstop]⟩
  rw [hstamp, ← hdone, decide_eq_true hlen]
  rfl

/-- **After a compound** the cache is up to date, and no rewards are left. -/
theorem compound_done (hR : c.Reaches) (h0 : c.store.syncCursor = 0) (hdel : Delegated c)
    (h : runTask view sender c .compound = some c') : UpToDate c' ∧ Reaped c' := by
  obtain ⟨k, hr, hcursor, hstamp, hpage⟩ := compounded hR h0 h
  have hran := runs_ok hr
  obtain ⟨hcarried, hout⟩ := compound_books hR h0 k (le_max_of_le_left (length_le hR))
  have hstore : c'.store = k.next := hran.store
  have hset := harvestedSet_all h0 k (le_max_of_le_left (length_le hR))
  have haddr : k.set.map (·.address) = c.store.validators.map (·.address) := by
    rw [map_restake (fun _ _ => rfl) k.restake_eq, hset, List.map_map]
    rfl
  have hreaped : ∀ v' ∈ k.set, (c'.stakeOf v'.address).rewards = 0 := by
    intro v' hv'
    obtain ⟨v, hv, ha⟩ := List.mem_map.1 (haddr ▸ List.mem_map_of_mem hv')
    rw [hran.rewards]
    split
    · rfl
    · rename_i hnot
      by_contra hz
      -- rewards that there are have been withdrawn
      refine hnot ?_
      rw [Compounded.messages, paidBy_append, List.mem_append]
      refine .inl ?_
      show v'.address ∈ paidBy (withdrawals (c.deps view) c.self.address _ _)
      rw [withdrawals_paid, hpage, ← ha]
      exact mem_rewarded.2 ⟨List.mem_map_of_mem hv, ha ▸ hz⟩
  refine ⟨⟨hstore ▸ hcursor, ?_, ?_⟩, ?_⟩
  · rw [hstore, hstamp]
    exact hran.now.symm
  · intro v' hv'
    rw [hstore] at hv'
    obtain ⟨u, hu, ha, hlow, hup⟩ := hcarried v' hv'
    obtain ⟨v, hv, rfl⟩ := List.mem_map.1 hu
    have ha : v.address = v'.address := ha
    have hout := hout v'.address
    have hamount : (c'.stakeOf v'.address).amount.val + outBy k.messages v'.address =
      (c.stakeOf v'.address).amount.val + intoBy k.messages v'.address := hran.amount v'.address
    have hbonded : (c.reap v).bonded.val = (c.stakeOf v'.address).amount.val := by
      rw [hdel.reap hv, ha]
    have hpending : k.set.map (·.pendingRewards) =
        (c.store.validators.map c.reap).map (·.pendingRewards) := by
      rw [map_restake (fun _ _ => rfl) k.restake_eq, hset]
    obtain ⟨_, hmem, hz⟩ := List.mem_map.1 (hpending ▸ List.mem_map_of_mem hv')
    obtain ⟨x, -, rfl⟩ := List.mem_map.1 hmem
    have hz : (0 : Uint128) = v'.pendingRewards := hz
    unfold Chain.read
    rw [hreaped v' hv', hz, show (c'.stakeOf v'.address).amount = v'.bonded from Word.ext (by omega)]
  · intro v' hv'
    rw [hstore] at hv'
    exact hreaped v' hv'

/-- **A compound where nothing is left to compound** changes nothing. -/
theorem compound_idle (hR : c.Reaches) (hd : UpToDate c) (hz : Reaped c)
    (h : runTask view sender c .compound = some c') : c' = c := by
  obtain ⟨k, hr, hcursor, hstamp, hpage⟩ := compounded hR hd.cursor h
  have hM := hR.reachable.mirrored
  have hharvest : k.harvested = 0 := by
    refine Word.ext ?_
    rw [k.harvested_val, hpage, rewardsOf_eq]
    refine List.sum_eq_zero fun n hn => ?_
    obtain ⟨v, hv, rfl⟩ := List.mem_map.1 hn
    rw [hz v hv]
    rfl
  have hwithdrawals : withdrawals (c.deps view) c.env.contract.address c.store.config.bondedDenom
      (pageOf c.store.syncCursor k.stop c.store.validators) = [] := by
    rw [hpage, withdrawals, List.map_eq_nil_iff, List.filter_eq_nil_iff]
    intro v hv
    show ¬ decide (rewardsAt (c.deps view) c.self.address _ _ ≠ 0) = true
    rw [rewardsAt_eq, hz v hv]
    decide
  have hread : c.store.validators.map c.reap = c.store.validators := by
    have hone : ∀ v ∈ c.store.validators, c.reap v = id v := by
      intro v hv
      have hbonded := (Delegated.of_agrees hd.agrees).reap hv
      rw [← bonded_of_agrees hd.agrees hv] at hbonded
      have hpending : (c.reap v).pendingRewards = v.pendingRewards := by
        rw [pending_of_agrees hd.agrees hv, hz v hv]
        rfl
      rw [show c.reap v = { v with
        bonded := (c.reap v).bonded, pendingRewards := (c.reap v).pendingRewards } from rfl, hbonded,
        hpending]
      rfl
    rw [List.map_congr_left hone, List.map_id]
  rcases restake_ok k.restake_eq with ⟨-, hs, hnil, hfee⟩ | ⟨hne, -⟩
  swap
  · exact absurd hharvest hne
  have hvalidators : k.set = c.store.validators := by
    rw [hs, harvestedSet_all hd.cursor k (le_max_of_le_left (length_le hR)), hread]
  have hbonded : k.bonded = c.store.totals.totalBonded :=
    Word.ext (by rw [k.bonded_val, hM.bonded, hvalidators])
  have hpending : k.pending = c.store.totals.pendingRewards :=
    Word.ext (by rw [k.pending_val, hM.pending, hvalidators])
  have hsupply : k.supply = c.store.totals.totalSupply :=
    Word.ext (by rw [k.supply_val, hfee, Word.val_zero, Nat.add_zero])
  have htime : k.time = c.store.totals.lastSyncTime := hstamp.trans hd.stamp.symm
  have hnext : k.next = c.store := by
    rw [show k.next = { c.store with
      validators := k.set
      syncCursor := k.next.syncCursor
      totals := { c.store.totals with
        totalBonded := k.bonded, pendingRewards := k.pending, totalSupply := k.supply,
        lastSyncTime := k.time } } from rfl]
    rw [hvalidators, hcursor, ← hd.cursor, hbonded, hpending, hsupply, htime]
  rw [Compounded.messages, hwithdrawals, hnil, hnext] at hr
  exact (Option.some.inj hr).symm

/-! ## Collect -/

/-- **A collect marks windows** and moves no stake. -/
theorem collected_ok (hR : c.Reaches) (h : runTask view sender c .collectMatured = some c') :
    ∃ store balance rets, c' = { c with store := store } ∧
      Marking c.now maxValidators balance c.store store rets := by
  obtain ⟨-, store, resp, he, hr⟩ := runTask_eq_some.1 h
  obtain ⟨ids, hmat, hm⟩ := executeCollectMatured_ok he
  obtain rfl := Left.of_silent hm hr
  obtain ⟨balance, rets, -, hM, -⟩ := matureDueWindows_ok hR.reachable.booked hmat
  exact ⟨store, balance, rets, rfl, hM⟩

/-- **After a collect** whose page does for the windows that are due, none is. -/
theorem collect_done (hR : c.Reaches) (hfew : c.dueWindows.length ≤ maxValidators)
    (h : runTask view sender c .collectMatured = some c') : c'.dueWindows = [] := by
  have hB := hR.reachable.booked
  obtain ⟨store, balance, rets, rfl, hM⟩ := collected_ok hR h
  have hall : rets.map (·.1) = c.dueWindows :=
    hM.due.trans (List.take_of_length_le (le_max_of_le_left hfew))
  have hactive : store.activeWindows = c.store.activeWindows := by rw [hM.frame]
  show store.activeWindows.filter (fun id => dueIn store.windows c.now id) = []
  rw [hactive, List.filter_eq_nil_iff]
  intro id hid hdue
  obtain ⟨w, hw, hs, hle⟩ := dueIn_iff.1 hdue
  by_cases hmarked : id ∈ rets.map (·.1)
  · obtain ⟨ret, hret, rfl⟩ := List.mem_map.1 hmarked
    obtain ⟨x, -, -, -, -, hx⟩ := hM.lookup_of_mem hB hret
    obtain rfl : x.returned ret.2 = w := Option.some.inj (hx.symm.trans hw)
    cases hs
  · refine hmarked ?_
    rw [hall]
    have hold : c.store.windows.lookup id = some w := (hM.lookup_of_not_mem hmarked).symm.trans hw
    exact List.mem_filter.2 ⟨hid, dueIn_iff.2 ⟨w, hold, hs, hle⟩⟩

/-- **A collect where nothing is due** changes nothing. -/
theorem collect_idle (hR : c.Reaches) (hd : c.dueWindows = [])
    (h : runTask view sender c .collectMatured = some c') : c' = c := by
  obtain ⟨store, balance, rets, rfl, hM⟩ := collected_ok hR h
  have hnil : rets = [] := by
    refine List.map_eq_nil_iff.1 (hM.due.trans ?_)
    rw [show (c.store.activeWindows.filter fun id => dueIn c.store.windows c.now id) = [] from hd,
      List.take_nil]
  subst hnil
  have hunbonding : store.totals.scrtOwedUnbonding = c.store.totals.scrtOwedUnbonding :=
    Word.ext hM.owedUnbonding
  have hmatured : store.totals.scrtOwedMatured = c.store.totals.scrtOwedMatured :=
    Word.ext hM.owedMatured
  rw [hM.frame, hunbonding, hmatured]
  rfl

/-! ## One task and the others -/

/-- Sets that differ in their slots and weights at most have the same entries otherwise. -/
theorem mem_columns {set set' : List ValidatorEntry} {v' : ValidatorEntry}
    (hcol : set'.map (fun v => (v.address, v.bonded, v.pendingRewards)) =
      set.map fun v => (v.address, v.bonded, v.pendingRewards)) (hv' : v' ∈ set') :
    ∃ v ∈ set, v.address = v'.address ∧ v.bonded = v'.bonded ∧ v.pendingRewards = v'.pendingRewards := by
  have hmem : (v'.address, v'.bonded, v'.pendingRewards) ∈
      set.map fun v => (v.address, v.bonded, v.pendingRewards) := hcol ▸ List.mem_map_of_mem hv'
  obtain ⟨v, hv, he⟩ := List.mem_map.1 hmem
  simp only [Prod.mk.injEq] at he
  exact ⟨v, hv, he⟩

/-- Whether an entry agrees is a matter of its address and of what is cached of it. -/
theorem agrees_columns {set set' : List ValidatorEntry}
    (hcol : set'.map (fun v => (v.address, v.bonded, v.pendingRewards)) =
      set.map fun v => (v.address, v.bonded, v.pendingRewards)) (h : Agrees set c) : Agrees set' c := by
  intro v' hv'
  obtain ⟨v, hv, ha, hb, hp⟩ := mem_columns hcol hv'
  have hbonded : (c.stakeOf v'.address).amount = v'.bonded := by
    rw [← ha, ← hb]
    exact congrArg (·.bonded) (h v hv)
  have hpending : (c.stakeOf v'.address).rewards = v'.pendingRewards := by
    rw [← ha, ← hp]
    exact congrArg (·.pendingRewards) (h v hv)
  unfold Chain.read
  rw [hbonded, hpending]

/-- **A task that is run is done**, and leaves the others done. -/
theorem runTask_done (hP : Ready c) (hne : task ≠ .advanceWindow)
    (h : runTask view sender c task = some c') :
    Ready c' ∧ Done c' task ∧ ∀ other, other ≠ .advanceWindow → Done c other → Done c' other := by
  have hR' : c'.Reaches := by
    obtain ⟨answer, hn⟩ := runTask_next h
    exact hP.reaches.next hn
  cases task with
  | advanceWindow => exact absurd rfl hne
  | sync =>
    obtain ⟨s, rfl, hset, hcursor, hstamp, -⟩ := synced hP.reaches hP.cursor h
    have hagrees : Agrees s.next.validators { c with store := s.next } := by
      rw [hset]
      exact (agrees_read _).congr fun _ => rfl
    have hdue : dueWindows { c with store := s.next } = c.dueWindows :=
      dueWindows_congr s.still.queue rfl
    refine ⟨⟨hR', hcursor, .of_agrees hagrees, hdue ▸ hP.few⟩, ⟨hcursor, hstamp, hagrees⟩, ?_⟩
    intro other hother hd
    cases other with
    | advanceWindow => exact absurd rfl hother
    | sync => exact ⟨hcursor, hstamp, hagrees⟩
    | collectMatured => exact hdue.trans hd
    | compound =>
      refine ⟨⟨hcursor, hstamp, hagrees⟩, fun v' hv' => ?_⟩
      have hv' : v' ∈ c.store.validators.map c.read := hset ▸ hv'
      obtain ⟨v, hv, rfl⟩ := List.mem_map.1 hv'
      exact hd.2 v hv
  | compound =>
    have hdone := compound_done hP.reaches hP.cursor hP.delegated h
    obtain ⟨k, hr, -⟩ := compounded hP.reaches hP.cursor h
    have hran := runs_ok hr
    have hdue : c'.dueWindows = c.dueWindows := by
      refine dueWindows_congr ?_ hran.now
      rw [hran.store]
      exact k.still.queue
    refine ⟨⟨hR', hdone.1.cursor, .of_agrees hdone.1.agrees, hdue ▸ hP.few⟩, hdone, ?_⟩
    intro other hother hd
    cases other with
    | advanceWindow => exact absurd rfl hother
    | sync => exact hdone.1
    | collectMatured => exact hdue.trans hd
    | compound => exact hdone
  | collectMatured =>
    have hdue := collect_done hP.reaches hP.few h
    obtain ⟨store, balance, rets, rfl, hM⟩ := collected_ok hP.reaches h
    have hcol : store.validators.map (fun v => (v.address, v.bonded, v.pendingRewards)) =
        c.store.validators.map fun v => (v.address, v.bonded, v.pendingRewards) := by
      rw [hM.frame]
      exact map_release (fun _ _ => rfl) _ _
    have hcursor : store.syncCursor = c.store.syncCursor := by rw [hM.frame]
    have hstamp : store.totals.lastSyncTime = c.store.totals.lastSyncTime := by rw [hM.frame]
    have hup : UpToDate c → UpToDate { c with store := store } := fun hd =>
      ⟨hcursor.trans hd.cursor, hstamp.trans hd.stamp,
        (agrees_columns hcol hd.agrees).congr fun _ => rfl⟩
    refine ⟨⟨hR', hcursor.trans hP.cursor, ?_, ?_⟩, hdue, ?_⟩
    · intro v' hv' hgone
      obtain ⟨v, hv, ha, hb, -⟩ := mem_columns hcol hv'
      rw [← hb]
      exact hP.delegated v hv (ha ▸ hgone)
    · rw [hdue]
      exact Nat.zero_le _
    · intro other hother hd
      cases other with
      | advanceWindow => exact absurd rfl hother
      | sync => exact hup hd
      | collectMatured => exact hdue
      | compound =>
        refine ⟨hup hd.1, fun v' hv' => ?_⟩
        obtain ⟨v, hv, ha, -⟩ := mem_columns hcol hv'
        rw [← ha]
        exact hd.2 v hv

/-- An `AdvanceWindow` finds the open window overdue. -/
theorem advance_overdue (h : runTask view sender c .advanceWindow = some c') :
    ∃ w, Overdue c.env c.store w := by
  obtain ⟨-, _, _, he, -⟩ := runTask_eq_some.1 h
  obtain ⟨w, _, hw, -, hdue, -⟩ := executeAdvanceWindow_ok he
  exact ⟨w, hw, hdue⟩

/-- **A task that is done** changes nothing, if it goes through at all. -/
theorem idle_of_done (hR : c.Reaches) (hd : Done c task) (h : runTask view sender c task = some c') :
    c' = c := by
  cases task with
  | compound => exact compound_idle hR hd.1 hd.2 h
  | collectMatured => exact collect_idle hR hd h
  | sync => exact sync_idle hR hd h
  | advanceWindow =>
    obtain ⟨w, ho⟩ := advance_overdue h
    exact absurd ho (hd w)

/-! ## Advancing -/

/-- **After an `AdvanceWindow`** the open window closes later than now. -/
theorem advance_done (hR : c.Reaches) (hnow : c.now < u64Max)
    (h : runTask view sender c .advanceWindow = some c') : Done c' .advanceWindow := by
  obtain ⟨-, store, resp, he, hr⟩ := runTask_eq_some.1 h
  obtain ⟨w, closing, hw, hopen, hdue, hc, -⟩ := executeAdvanceWindow_ok he
  obtain ⟨used, -, -, hstep⟩ := closeOpenWindow_ok hw hopen hdue hc
  have hran := runs_ok hr
  have hpos := hR.reachable.terms.window_pos
  rintro v ⟨hlook, hle⟩
  have hlook : store.queue.windows.lookup store.queue.openWindow = some v := by
    rw [hran.store] at hlook
    exact hlook
  have hle : v.closesAt ≤ c.now := by
    have htime : c'.now = c.now := hran.now
    exact htime ▸ hle
  -- it is the one that has just been opened
  obtain ⟨closed, active, hq⟩ : ∃ closed active, store.queue =
      c.store.queue.advance c.now c.store.config.params.unbondWindowSecs closed active := by
    generalize store.queue = q at hstep
    cases hstep with
    | closeEmpty => exact ⟨_, _, rfl⟩
    | close => exact ⟨_, _, rfl⟩
  have hopened : store.queue.openWindow = c.store.queue.nextWindowId := by
    rw [hq]
    rfl
  rw [hopened, hq, Queue.lookup_advance, if_pos rfl] at hlook
  obtain rfl := Option.some.inj hlook
  have hcloses : satAdd64 c.now c.store.config.params.unbondWindowSecs ≤ c.now := hle
  unfold satAdd64 at hcloses
  omega

/-- Only an `AdvanceWindow` touches the open window, and none of the tasks takes time. -/
theorem runTask_open (hR : c.Reaches) (hne : task ≠ .advanceWindow)
    (h : runTask view sender c task = some c') : c'.now = c.now ∧
      c'.store.windows.lookup c'.store.openWindow = c.store.windows.lookup c.store.openWindow := by
  obtain ⟨-, store, resp, he, hr⟩ := runTask_eq_some.1 h
  have hran := runs_ok hr
  refine ⟨hran.now, ?_⟩
  rw [hran.store]
  cases task with
  | advanceWindow => exact absurd rfl hne
  | sync =>
    obtain ⟨s, rfl, -⟩ := executeSync_ok he
    rfl
  | compound =>
    obtain ⟨k, rfl, -⟩ := executeCompound_ok he
    rfl
  | collectMatured =>
    obtain ⟨ids, hmat, -⟩ := executeCollectMatured_ok he
    obtain ⟨balance, rets, -, hM, -⟩ := matureDueWindows_ok hR.reachable.booked hmat
    have hopen : store.openWindow = c.store.openWindow := by rw [hM.frame]
    rw [hopen]
    refine hM.lookup_of_not_mem fun hmem => ?_
    -- the open window is not in unbonding
    obtain ⟨ret, hret, he⟩ := List.mem_map.1 hmem
    obtain ⟨w, hw, hs, -⟩ := hM.lookup_of_mem hR.reachable.booked hret
    have hstate := (hR.reachable.booked.shape.isOpen _ _ hw).2 he
    rw [hs] at hstate
    cases hstate

/-- So it is overdue before them exactly when it is after them. -/
theorem overdue_runTask (hR : c.Reaches) (hne : task ≠ .advanceWindow)
    (h : runTask view sender c task = some c') {w : UnbondWindow} :
    Overdue c'.env c'.store w ↔ Overdue c.env c.store w := by
  obtain ⟨htime, hsame⟩ := runTask_open hR hne h
  constructor
  · rintro ⟨hw, hdue⟩
    have hdue : w.closesAt ≤ c'.now := hdue
    exact ⟨hsame ▸ hw, show w.closesAt ≤ c.now from htime ▸ hdue⟩
  · rintro ⟨hw, hdue⟩
    have hdue : w.closesAt ≤ c.now := hdue
    exact ⟨hsame ▸ hw, show w.closesAt ≤ c'.now from htime.symm ▸ hdue⟩

/-- **Once the open window cannot be closed**, no task makes that different in the block. -/
theorem runTask_shuts (hR : c.Reaches) (hd : Done c .advanceWindow)
    (h : runTask view sender c task = some c') :
    task ≠ .advanceWindow ∧ Done c' .advanceWindow := by
  have hne : task ≠ .advanceWindow := by
    rintro rfl
    obtain ⟨w, ho⟩ := advance_overdue h
    exact hd w ho
  exact ⟨hne, fun w ho => hd w ((overdue_runTask hR hne h).1 ho)⟩

/-! ## Two runs -/

/-- A task goes on in the block. -/
theorem runTask_goes (hR : c.Reaches) (h : runTask view sender c task = some c') :
    c'.Reaches ∧ c'.now = c.now := by
  obtain ⟨answer, hn⟩ := runTask_next h
  obtain ⟨-, store, resp, -, hr⟩ := runTask_eq_some.1 h
  exact ⟨hR.next hn, (runs_ok hr).now⟩

/-- **Running upkeep twice is harmless.** A second run of the same tasks in the block, in any order and
by anybody, is refused or changes nothing; with an `AdvanceWindow` among them it is refused. -/
theorem rerun_harmless (hP : Ready c) (hnow : c.now < u64Max)
    (hfirst : runUpkeep view sender tasks c = .ok c₁) (hsame : ∀ task, task ∈ tasks' ↔ task ∈ tasks)
    (hagain : runUpkeep view' sender' tasks' c₁ = .ok c₂) :
    c₂ = c₁ ∧ UpkeepTask.advanceWindow ∉ tasks := by
  obtain ⟨-, hrun⟩ := runUpkeep_eq_ok.1 hfirst
  obtain ⟨-, hrun'⟩ := runUpkeep_eq_ok.1 hagain
  have hnone : UpkeepTask.advanceWindow ∉ tasks := by
    intro hmem
    -- the first run leaves a window that cannot be closed, and the second comes to it
    obtain ⟨⟨hR₁, -⟩, hshut⟩ := foldlM_done (P := fun c => c.Reaches ∧ c.now < u64Max)
      (D := fun c task => task = .advanceWindow → Done c task) (fun c task c' _ ⟨hR, hnow⟩ h => by
        obtain ⟨hR', htime⟩ := runTask_goes hR h
        refine ⟨⟨hR', htime ▸ hnow⟩, ?_, ?_⟩
        · rintro rfl
          exact advance_done hR hnow h
        · rintro other _ hd rfl
          exact (runTask_shuts hR (hd rfl) h).2) ⟨hP.reaches, hnow⟩ hrun
    obtain ⟨-, hother⟩ := foldlM_done (P := fun c => c.Reaches ∧ Done c .advanceWindow)
      (D := fun _ task => task ≠ .advanceWindow) (fun c task c' _ ⟨hR, hd⟩ h => by
        obtain ⟨hne, hd'⟩ := runTask_shuts hR hd h
        exact ⟨⟨(runTask_goes hR h).1, hd'⟩, hne, fun _ _ hother => hother⟩)
      ⟨hR₁, hshut _ hmem rfl⟩ hrun'
    exact hother _ ((hsame _).2 hmem) rfl
  refine ⟨?_, hnone⟩
  have hother : ∀ task ∈ tasks, task ≠ .advanceWindow := fun task hmem he => hnone (he ▸ hmem)
  obtain ⟨hP₁, hdone⟩ := foldlM_done (P := Ready) (D := Done) (fun s task t hmem hP h => by
    obtain ⟨hP', hd, hkeep⟩ := runTask_done hP (hother task hmem) h
    exact ⟨hP', hd, fun other hmem' => hkeep other (hother other hmem')⟩) hP hrun
  refine foldlM_idle (fun task hmem u h => ?_) hrun'
  exact idle_of_done hP₁.reaches (hdone task ((hsame task).1 hmem)) h

/-- A user deposits 100 SCRT and sends 40 of the shares back; what the window undelegates has come back,
and the validator has earned 5 SCRT since. -/
def devRipe : List ChainEvent := [devSeed, devEnter "user" (Uint128.new 100000000) .deposit,
  devSend "user" (Uint128.new 40000000), .time (devStart + 432000), devEnter "keeper" 0 .advanceWindow,
  .inflow (Uint128.new 41818181), .time (devStart + 2332800),
  .accrue "validatortwo" (Uint128.new 5000000)]

set_option maxRecDepth 10000 in
/-- The first run mints the fee on the rewards and marks the window; a second keeper, with the tasks the
other way round, finds nothing to do. -/
theorem rerun_harmless_ripe : ∃ c c₁ c₂ : Chain, Ready c ∧
    runUpkeep (devView 0 []) "keeper" [.compound, .collectMatured, .sync] c = .ok c₁ ∧
    runUpkeep (devView 0 []) "second" [.sync, .collectMatured, .compound] c₁ = .ok c₂ ∧
    c.supply < c₁.supply ∧ c.dueWindows ≠ [] ∧ c₁.dueWindows = [] ∧ c₂ = c₁ := by
  have hrun : (devChain.replay devRipe).bind (fun s =>
      (runUpkeep (devView 0 []) "keeper" [.compound, .collectMatured, .sync] s.1).toOption.bind fun c₁ =>
        (runUpkeep (devView 0 []) "second" [.sync, .collectMatured, .compound] c₁).toOption.map fun _ =>
          decide (s.1.store.syncCursor = 0 ∧ (∀ v ∈ s.1.store.validators,
              s.1.stakes.lookup v.address = none → v.bonded = 0) ∧
            s.1.dueWindows.length = 1 ∧ s.1.now < u64Max ∧ s.1.supply < c₁.supply ∧
            c₁.dueWindows = [])) = some true := by decide +kernel
  obtain ⟨⟨c, h⟩, hr, hrun⟩ := Option.bind_eq_some_iff.1 hrun
  obtain ⟨c₁, h₁, hrun⟩ := Option.bind_eq_some_iff.1 hrun
  obtain ⟨c₂, h₂, hs⟩ := Option.map_eq_some_iff.1 hrun
  rw [toOption_eq_some] at h₁ h₂
  rw [decide_eq_true_eq] at hs
  obtain ⟨hcursor, hdelegated, hdue, hnow, hsupply, hdone⟩ := hs
  have hP : Ready c := ⟨⟨devChain, h, devChain_fresh, replay_ok hr⟩, hcursor, hdelegated,
    hdue.le.trans (by decide)⟩
  obtain ⟨hsame, -⟩ := rerun_harmless hP hnow h₁ (fun task => by cases task <;> simp) h₂
  refine ⟨c, c₁, c₂, hP, h₁, h₂, hsupply, fun hnil => ?_, hdone, hsame⟩
  rw [hnil] at hdue
  cases hdue

/-- Four validators hold 100 SCRT each. What is left of the first after a slashing of 60 is undelegated,
so that its delegation is gone, while 60 are still cached; another earns 5. -/
def devVanished : List ChainEvent :=
  [devEnter "deployer" (Uint128.new 100000000) (.bootstrap "token" "tokenhash"),
    devEnter "user" (Uint128.new 100000000) .deposit, devEnter "user" (Uint128.new 100000000) .deposit,
    devEnter "user" (Uint128.new 100000000) .deposit, devSend "user" (Uint128.new 40000000),
    .slash "validatorone" (Uint128.new 60000000), .time (devStart + 432000),
    devEnter "keeper" 0 .advanceWindow, .accrue "validatortwo" (Uint128.new 5000000)]

set_option maxRecDepth 10000 in
/-- Where stake is cached of a delegation that is gone, compounding twice is not compounding once: the
first compound restakes 5 SCRT there and caches 65, the second reads 5. -/
theorem compound_reads_again : ∃ c c₁ c₂ : Chain, c.Reaches ∧ c.store.syncCursor = 0 ∧
    runUpkeep (devView 0 []) "keeper" [.compound] c = .ok c₁ ∧
    runUpkeep (devView 0 []) "second" [.compound] c₁ = .ok c₂ ∧
    c₂.store.totals.totalBonded < c₁.store.totals.totalBonded := by
  have hrun : (devChain.replay devVanished).bind (fun s =>
      (runUpkeep (devView 0 []) "keeper" [.compound] s.1).toOption.bind fun c₁ =>
        (runUpkeep (devView 0 []) "second" [.compound] c₁).toOption.map fun c₂ =>
          decide (s.1.store.syncCursor = 0 ∧
            c₂.store.totals.totalBonded < c₁.store.totals.totalBonded)) = some true := by
    decide +kernel
  obtain ⟨⟨c, h⟩, hr, hrun⟩ := Option.bind_eq_some_iff.1 hrun
  obtain ⟨c₁, h₁, hrun⟩ := Option.bind_eq_some_iff.1 hrun
  obtain ⟨c₂, h₂, hs⟩ := Option.map_eq_some_iff.1 hrun
  rw [toOption_eq_some] at h₁ h₂
  rw [decide_eq_true_eq] at hs
  exact ⟨c, c₁, c₂, ⟨devChain, h, devChain_fresh, replay_ok hr⟩, hs.1, h₁, h₂, hs.2⟩

end Browser

end LstCore
