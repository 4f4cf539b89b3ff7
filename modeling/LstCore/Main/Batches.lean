import LstCore.Main.Advancing
import LstCore.Main.RateFalls
import LstCore.Main.Deposits
import LstCore.Main.Harvest
import LstCore.Proof.Tasks
import LstCore.Spec.Batches

/-!
# Upkeep in one transaction

A sync, a compound and a collect go through in every reachable state, as long as the numbers stay in
range. So a transaction of upkeep messages, whatever their order and number, is refused for one
reason: an `AdvanceWindow` in it that comes too early, that the slots do not cover or that a
slashing has overdrawn, and it takes the others down with it (`upkeep_iff`).

* `compound_runs`: the chain takes what a compound withdraws, delegates and mints.
* `runTask_left`: what a task leaves of the range.
-/

namespace LstCore

open Lib

namespace Chain

variable {c c' c₁ : Chain} {view : Deps} {info : MessageInfo} {store : Storage} {resp : Response}
  {token : ContractInfo} {n : ℕ} {limit : Option ℕ}

/-! ## The range -/

/-- What is cached, held, owed and counted stays in range for so many tasks. A task caches no more
than is held on top of what is cached, and mints no more shares than there are. -/
structure Room (c : Chain) (n : ℕ) : Prop where
  money : c.store.totals.totalBonded.val + c.store.totals.pendingRewards.val + (n + 1) * c.worth <
    2 ^ 128
  supply : c.supply.val * 2 ^ n < 2 ^ 128
  owed : c.store.totals.scrtOwedOpen.val + c.store.totals.scrtOwedUnbonding.val +
    c.store.totals.scrtOwedMatured.val < 2 ^ 128
  ids : c.store.nextWindowId + n ≤ u64Max

theorem pageOf_sublist (cursor stop : ℕ) (set : List ValidatorEntry) :
    (pageOf cursor stop set).Sublist set := (List.drop_sublist _ _).trans (List.take_sublist _ _)

/-- A page of the set holds no more rewards than there are. -/
theorem page_le_held (hR : c.Reaches) (cursor stop : ℕ) :
    ((pageOf cursor stop c.store.validators).map fun v => (c.stakeOf v.address).rewards.val).sum ≤
      c.held := by
  rw [held, hR.housed.total_eq hR.nodup (·.rewards.val) rfl]
  exact ((pageOf_sublist _ _ _).map _).sum_le_sum fun _ _ => Nat.zero_le _

theorem readable (view : Deps) (page : List ValidatorEntry) :
    Readable (c.deps view) c.env.contract.address page :=
  fun v _ => ⟨(c.stakes.lookup v.address).map c.report, if_pos rfl⟩

/-- The set as a sync leaves it. -/
theorem syncedSet_eq (view : Deps) (stop : ℕ) : syncedSet (c.deps view) c.env c.store stop =
    withPage c.store.syncCursor stop c.store.validators
      ((pageOf c.store.syncCursor stop c.store.validators).map c.read) := by
  rw [← readEntry_eq view]
  rfl

/-- And as a compound does, before it restakes. -/
theorem harvestedSet_eq (view : Deps) (stop : ℕ) : harvestedSet (c.deps view) c.env c.store stop =
    withPage c.store.syncCursor stop c.store.validators
      ((pageOf c.store.syncCursor stop c.store.validators).map c.reap) := by
  rw [← harvestEntry_eq view]
  rfl

/-- A page rewritten, entry by entry. -/
theorem total_rewritten (f : ValidatorEntry → Uint128) (g : ValidatorEntry → ValidatorEntry)
    {cursor stop : ℕ} (set : List ValidatorEntry) (hle : cursor ≤ stop) :
    total f (withPage cursor stop set ((pageOf cursor stop set).map g)) +
        total f (pageOf cursor stop set) =
      total f set + total f ((pageOf cursor stop set).map g) := total_withPage hle

/-- **A sync** counts no more stake than before, and no more rewards than are held on top. -/
theorem synced_le (hR : c.Reaches) {stop : ℕ} (hle : c.store.syncCursor ≤ stop) (view : Deps) :
    total (·.bonded) (syncedSet (c.deps view) c.env c.store stop) ≤ c.store.totals.totalBonded.val ∧
      total (·.pendingRewards) (syncedSet (c.deps view) c.env c.store stop) ≤
        c.store.totals.pendingRewards.val + c.held := by
  have hM := hR.reachable.mirrored
  have hheld := page_le_held hR c.store.syncCursor stop
  have hbonded := total_rewritten (·.bonded) c.read c.store.validators hle
  have hpending := total_rewritten (·.pendingRewards) c.read c.store.validators hle
  have hread : total (·.bonded) ((pageOf c.store.syncCursor stop c.store.validators).map c.read) ≤
      total (·.bonded) (pageOf c.store.syncCursor stop c.store.validators) := by
    rw [total, List.map_map]
    exact List.sum_le_sum fun v hv =>
      Word.le_def.1 (hR.covered v ((pageOf_sublist _ _ _).subset hv))
  have hrewards : total (·.pendingRewards)
      ((pageOf c.store.syncCursor stop c.store.validators).map c.read) ≤ c.held := by
    rw [total, List.map_map]
    exact hheld
  rw [syncedSet_eq, hM.bonded, hM.pending]
  omega

/-- **A harvest** leaves no more stake and no more rewards counted than before. -/
theorem harvested_le (hR : c.Reaches) {stop : ℕ} (hle : c.store.syncCursor ≤ stop) (view : Deps) :
    total (·.bonded) (harvestedSet (c.deps view) c.env c.store stop) ≤
        c.store.totals.totalBonded.val ∧
      total (·.pendingRewards) (harvestedSet (c.deps view) c.env c.store stop) ≤
        c.store.totals.pendingRewards.val := by
  have hM := hR.reachable.mirrored
  have hbonded := total_rewritten (·.bonded) c.reap c.store.validators hle
  have hpending := total_rewritten (·.pendingRewards) c.reap c.store.validators hle
  have hreap : total (·.bonded) ((pageOf c.store.syncCursor stop c.store.validators).map c.reap) ≤
      total (·.bonded) (pageOf c.store.syncCursor stop c.store.validators) := by
    rw [total, List.map_map]
    exact List.sum_le_sum fun v hv =>
      Word.le_def.1 (hR.covered.reap v ((pageOf_sublist _ _ _).subset hv)).2
  have hzero : total (·.pendingRewards)
      ((pageOf c.store.syncCursor stop c.store.validators).map c.reap) = 0 := by
    rw [total, List.map_map]
    exact List.sum_eq_zero fun n hn => by
      obtain ⟨v, -, rfl⟩ := List.mem_map.1 hn
      rfl
  rw [harvestedSet_eq, hM.bonded, hM.pending]
  omega

/-- What a page has earned, as the contract reads it. -/
theorem rewardsOf_eq (view : Deps) (page : List ValidatorEntry) :
    rewardsOf (c.deps view) c.env.contract.address c.store.config.bondedDenom page =
      (page.map fun v => (c.stakeOf v.address).rewards.val).sum := by
  show rewardsOf (c.deps view) c.self.address _ _ = _
  simp only [rewardsOf, rewardsAt_eq]

/-- What a compound takes is a part of what is held. -/
theorem harvest_le_held (hR : c.Reaches) (k : Compounded (c.deps view) c.env limit c.store) :
    k.harvested.val ≤ c.held := by
  rw [k.harvested_val, rewardsOf_eq]
  exact page_le_held hR _ _

/-! ## What the chain takes -/

/-- **Rewards that there are can be withdrawn**, from one validator after the other. -/
theorem exists_withdrawals : ∀ {l : List String} {c : Chain}, l.Nodup →
    (∀ v ∈ l, (c.stakeOf v).rewards ≠ 0) → c.worth < 2 ^ 128 →
    ∃ c', (l.map .withdrawDelegatorReward).foldlM run c = some c' ∧ OnStaking c c' ∧
      c'.worth = c.worth ∧
      c'.balance.val = c.balance.val + (l.map fun v => (c.stakeOf v).rewards.val).sum := by
  intro l
  induction l with
  | nil => exact fun _ _ _ => ⟨_, rfl, ⟨rfl, rfl, rfl, rfl, rfl⟩, rfl, rfl⟩
  | cons v l ih =>
    intro c hnd hrewards hfits
    obtain ⟨hv, hnd⟩ := List.nodup_cons.1 hnd
    obtain ⟨c₁, hcollect⟩ := exists_collect (c := c) (by unfold worth at hfits; omega) v
    obtain ⟨s, hs⟩ : ∃ s, c.stakes.lookup v = some s := by
      refine Option.ne_none_iff_exists'.1 fun hnone => hrewards v List.mem_cons_self ?_
      rw [stakeOf, hnone]
      rfl
    have h₁ : c.run (.withdrawDelegatorReward v) = some c₁ := by
      simp only [run, hs, Option.bind_eq_bind, Option.bind_some, hcollect]
    have hran := run_ok h₁
    have hworth : c₁.worth = c.worth := hran.worth
    -- the others have what they had
    have hoff : ∀ u ∈ l, c₁.stakeOf u = c.stakeOf u := fun u hu =>
      hran.off fun he => hv (List.mem_singleton.1 he ▸ hu)
    obtain ⟨c', hrest, hon', hworth', hbal⟩ := ih (c := c₁) hnd (fun u hu => by
      rw [hoff u hu]
      exact hrewards u (List.mem_cons_of_mem v hu)) (hworth ▸ hfits)
    obtain ⟨hon, hb, -⟩ := collect_ok hcollect
    refine ⟨c', ?_, hon.trans hon', hworth'.trans hworth, ?_⟩
    · rw [List.map_cons, List.foldlM_cons, h₁]
      exact hrest
    · rw [List.map_congr_left fun u hu => by rw [hoff u hu]] at hbal
      rw [List.map_cons, List.sum_cons, hbal, hb]
      omega

/-- The messages of the fee mint it, if there is one. -/
theorem feeMessages_mint {config : Config} {fee : Uint128} {messages : List CosmosMsg}
    (ht : config.token = some token) (h : feeMessages config fee = .ok messages) :
    messages = [] ∨
      messages = [.token token (.mint config.treasury fee (some "performance fee"))] := by
  unfold feeMessages at h
  split at h
  · exact .inl (Except.ok.inj h).symm
  · rw [Config.boundToken, ht, orErr, ok_bind] at h
    exact .inr (Except.ok.inj h).symm

/-- **The chain takes what a compound does**: it withdraws what is there, delegates what it has
withdrawn and mints no more shares than the supply has room for. -/
theorem compound_runs (hR : c.Reaches) (ht : c.store.config.token = some token)
    (hmoney : c.worth < 2 ^ 128) (hsupply : 2 * c.supply.val < 2 ^ 128)
    (k : Compounded (c.deps view) c.env limit c.store) (hfee : k.fee ≤ c.supply) :
    ∃ c', k.messages.foldlM run { c with store := k.next } = some c' := by
  have hnd : ((pageOf c.store.syncCursor k.stop c.store.validators).map (·.address)).Nodup :=
    hR.nodup.sublist ((pageOf_sublist _ _ _).map _)
  have hpaid : (c.rewarded (pageOf c.store.syncCursor k.stop c.store.validators)).Nodup :=
    hnd.sublist (List.filter_sublist.map _)
  have hlist : withdrawals (c.deps view) c.self.address c.store.config.bondedDenom
      (pageOf c.store.syncCursor k.stop c.store.validators) =
      (c.rewarded (pageOf c.store.syncCursor k.stop c.store.validators)).map
        .withdrawDelegatorReward := by
    simp only [withdrawals, rewardsAt_eq, rewarded, List.map_map]
    rfl
  obtain ⟨c₁, hwithdraw, hon, hworth, hbal⟩ := exists_withdrawals (c := { c with store := k.next })
    hpaid (fun v hv => (mem_rewarded.1 hv).2) hmoney
  have hworth : c₁.worth = c.worth := hworth
  have hharvest : k.harvested.val ≤ c₁.balance.val := by
    have hval : k.harvested.val = ((c.rewarded (pageOf c.store.syncCursor k.stop
        c.store.validators)).map fun v => (c.stakeOf v).rewards.val).sum := by
      rw [k.harvested_val, rewardsOf_eq, ← rewardsIn_rewarded hnd, rewardsIn, List.sum_toFinset _ hpaid]
    rw [hbal, hval]
    exact Nat.le_add_left _ _
  have hconfig : c₁.store.config = c.store.config := congrArg (·.config) hon.store
  rw [Compounded.messages, List.foldlM_append]
  show ∃ c', (withdrawals (c.deps view) c.self.address c.store.config.bondedDenom
    (pageOf c.store.syncCursor k.stop c.store.validators)).foldlM run { c with store := k.next } >>=
      _ = some c'
  rw [hlist, hwithdraw, Option.bind_eq_bind, Option.bind_some]
  rcases restake_ok k.restake_eq with ⟨-, -, hnil, -⟩ | ⟨-, _, validator, mint, -, -, -, hf, hmsg⟩
  · rw [hnil]
    exact ⟨_, rfl⟩
  · obtain ⟨c₂, hdelegate⟩ := exists_delegate (c := c₁) (hworth ▸ hmoney)
      (show k.harvested ≤ c₁.balance from Word.le_def.2 hharvest) validator
    rw [hmsg, List.foldlM_cons, ← hconfig, hdelegate, Option.bind_eq_bind, Option.bind_some]
    rcases feeMessages_mint ht hf with rfl | rfl
    · exact ⟨_, rfl⟩
    · -- the token has not moved so far
      have hran := run_ok hdelegate
      have hsupply₂ : c₂.supply.val + 0 = c₁.supply.val + 0 := hran.supply
      have hshares₂ : c₂.shareTotal + 0 = c₁.shareTotal + 0 := hran.shareTotal
      have hsupply₁ : c₁.supply = c.supply := hon.supply
      have hshares₁ : c₁.shareTotal = c.shareTotal := congrArg (·.total fun _ a => a.val) hon.shares
      have hM := hR.mirror.shares
      have hle := Word.le_def.1 hfee
      rw [hsupply₁] at hsupply₂
      have ht₂ : c₂.store.config.token = some token := by rw [hran.store, hconfig, ht]
      have hfits : c₂.supply.val + k.fee.val < 2 ^ 128 := by omega
      obtain ⟨c₃, hmint, -⟩ := exists_mint (by omega) ht₂ hfits c.store.config.treasury
        (some "performance fee")
      exact ⟨c₃, by rw [List.foldlM_cons, hmint]; rfl⟩

end Chain

/-! ## Tasks -/

namespace Browser

open Chain

variable {c c' c₁ : Chain} {view : Deps} {sender : Addr} {task : UpkeepTask} {tasks : List UpkeepTask}
  {token : ContractInfo} {n : ℕ}

/-- **One message of the transaction**, which brings no funds. -/
theorem runTask_eq_some : runTask view sender c task = some c' ↔ ¬ c.IsContract sender ∧
    ∃ store resp, execute (c.deps view) c.env ⟨sender, []⟩ (upkeepMsg task) c.store =
      .ok (store, resp) ∧ resp.messages.foldlM run { c with store := store } = some c' := by
  unfold runTask step enter
  dsimp only
  rw [fund_nil]
  by_cases hs : c.IsContract sender
  · simp [hs]
  · simp only [hs, if_false, not_false_iff, true_and, Option.bind_eq_bind, Option.bind_some]
    rcases execute (c.deps view) c.env ⟨sender, []⟩ (upkeepMsg task) c.store with e | ⟨store, resp⟩
    · simp
    · simp

/-- A task is an event of the chain. -/
theorem runTask_next (h : runTask view sender c task = some c') :
    ∃ answer, Next c (.call view ⟨sender, []⟩ (upkeepMsg task), answer) c' := by
  obtain ⟨⟨d, answer⟩, hd, rfl⟩ := Option.map_eq_some_iff.1 h
  exact ⟨answer, hd⟩

/-- A page covers the set. -/
theorem length_le (hR : c.Reaches) : c.store.validators.length ≤ maxValidators := by
  have hS := hR.reachable.slotted
  have hlen : (addresses c.store.validators).length ≤ LstCore.maxValidators :=
    (hS.distinct.subperm fun a ha => hS.allowed a ha).length_le.trans hS.few
  rw [addresses_eq, List.length_map] at hlen
  exact hlen

/-- The set is small enough for its places to be counted. -/
theorem exists_stop (hR : c.Reaches) : ∃ stop,
    pageEnd c.store.syncCursor maxValidators c.store.validators = .ok stop ∧
      c.store.syncCursor ≤ stop := by
  have hcursor := hR.reachable.manned.cursor
  have hfew : c.store.validators.length ≤ 20 := length_le hR
  have hmax : max maxValidators 1 = 20 := rfl
  refine ⟨_, pageEnd_eq_ok.2 ⟨?_, rfl⟩, ?_⟩
  · rw [hmax]
    have : 40 ≤ u32Max := by decide
    omega
  · rw [hmax]
    omega

/-- **A sync goes through.** -/
theorem exists_sync (hR : c.Reaches) (hroom : c.Room n) (hs : ¬ c.IsContract sender) (view : Deps) :
    ∃ c', runTask view sender c .sync = some c' := by
  obtain ⟨stop, hstop, hle⟩ := exists_stop hR
  obtain ⟨hbonded, hpending⟩ := synced_le hR hle view
  have hmoney := hroom.money
  have hworth : c.worth ≤ (n + 1) * c.worth := Nat.le_mul_of_pos_left _ (Nat.succ_pos n)
  have hheld : c.held ≤ c.worth := by
    unfold Chain.worth
    omega
  have hne : c.store.validators ≠ [] :=
    List.ne_nil_of_length_pos (Nat.zero_lt_of_lt hR.reachable.manned.cursor)
  obtain ⟨⟨store, resp⟩, he⟩ : ∃ r, executeSync (c.deps view) c.env (some maxValidators) c.store =
      .ok r :=
    executeSync_total hne hstop hle (readable view _) (by omega) (by omega)
      (mirrorSupply_eq hR.mirror.supply view)
  obtain ⟨k, rfl, hm, -⟩ := executeSync_ok he
  exact ⟨_, runTask_eq_some.2 ⟨hs, _, resp, he, by rw [hm]; rfl⟩⟩

/-- **A collect goes through.** -/
theorem exists_collected (hR : c.Reaches) (hs : ¬ c.IsContract sender) (view : Deps) :
    ∃ c', runTask view sender c .collectMatured = some c' := by
  have hbal : (c.deps view).queryBalance c.env.contract.address c.store.config.bondedDenom =
      .ok c.balance := by simp [deps, env]
  obtain ⟨store, ids, hmat⟩ := matureDueWindows_total hR.reachable.booked maxValidators hbal
  have he : execute (c.deps view) c.env ⟨sender, []⟩ (.collectMatured (some maxValidators)) c.store =
      .ok (store, ⟨[], some (.collectMatured ids)⟩) := by
    show executeCollectMatured _ _ _ _ = _
    unfold executeCollectMatured
    rw [show (some maxValidators).getD defaultSyncLimit = maxValidators from rfl, hmat, ok_bind]
    rfl
  exact ⟨_, runTask_eq_some.2 ⟨hs, store, _, he, rfl⟩⟩

/-- **A compound goes through.** -/
theorem exists_compounded (hR : c.Reaches) (ht : c.store.config.token = some token)
    (hroom : c.Room (n + 1)) (hs : ¬ c.IsContract sender) (view : Deps) :
    ∃ c', runTask view sender c .compound = some c' := by
  obtain ⟨stop, hstop, hle⟩ := exists_stop hR
  obtain ⟨hbonded, hpending⟩ := harvested_le hR hle view
  have hmoney := hroom.money
  have howed := hroom.owed
  have hworth : 2 * c.worth ≤ (n + 1 + 1) * c.worth := Nat.mul_le_mul_right _ (by omega)
  have hparts : c.held + c.balance.val ≤ c.worth := by
    unfold Chain.worth
    omega
  have hsupply : 2 * c.supply.val < 2 ^ 128 := by
    have htwo : 2 ≤ 2 ^ (n + 1) := by
      rw [Nat.pow_succ]
      exact Nat.le_mul_of_pos_left 2 (Nat.two_pow_pos n)
    have := Nat.mul_le_mul_left c.supply.val htwo
    have := hroom.supply
    omega
  have hbps := hR.reachable.fee_half
  have hne : c.store.validators ≠ [] :=
    List.ne_nil_of_length_pos (Nat.zero_lt_of_lt hR.reachable.manned.cursor)
  have hbal : (c.deps view).queryBalance c.env.contract.address c.store.config.bondedDenom =
      .ok c.balance := by simp [deps, env]
  have hrewards : rewardsOf (c.deps view) c.env.contract.address c.store.config.bondedDenom
      (pageOf c.store.syncCursor stop c.store.validators) ≤ c.held := by
    rw [rewardsOf_eq]
    exact page_le_held hR _ _
  have hwhole : ((actives (harvestedSet (c.deps view) c.env c.store stop)).map (·.weightBps)).sum =
      bpsDenom := by
    have hposts : posts (harvestedSet (c.deps view) c.env c.store stop) = posts c.store.validators := by
      refine map_withPage ?_
      rw [List.map_map]
      rfl
    exact (hR.reachable.manned.posted.of_posts hposts).whole
  have hmirror := hR.mirror.supply
  obtain ⟨⟨store, resp⟩, he⟩ : ∃ r, executeCompound (c.deps view) c.env (some maxValidators) c.store =
      .ok r :=
    executeCompound_total hne ht hbps hstop hle (readable view _) hbal hwhole (by omega) (by omega)
      (by rw [hmirror]; exact hsupply)
  obtain ⟨k, rfl, hm, -⟩ := executeCompound_ok he
  have hfee : k.fee ≤ c.supply := by
    rw [Word.le_def, k.fee_val, hmirror]
    exact feeShares_le _ _ hbps
  obtain ⟨c', hruns⟩ := compound_runs hR ht (by omega) hsupply k hfee
  exact ⟨c', runTask_eq_some.2 ⟨hs, _, resp, he, by rw [hm]; exact hruns⟩⟩

/-! ## What is left of the range -/

/-- What a task left, booked. -/
structure Left (c c' : Chain) : Prop where
  money : c'.store.totals.totalBonded.val + c'.store.totals.pendingRewards.val ≤
    c.store.totals.totalBonded.val + c.store.totals.pendingRewards.val + c.worth
  worth : c'.worth ≤ c.worth
  supply : c'.supply.val ≤ 2 * c.supply.val
  owed : c'.store.totals.scrtOwedOpen.val + c'.store.totals.scrtOwedUnbonding.val +
    c'.store.totals.scrtOwedMatured.val ≤ c.store.totals.scrtOwedOpen.val +
      c.store.totals.scrtOwedUnbonding.val + c.store.totals.scrtOwedMatured.val
  ids : c'.store.nextWindowId ≤ c.store.nextWindowId + 1

theorem Left.room (h : Left c c') (hroom : c.Room (n + 1)) : c'.Room n where
  money := by
    have hmoney := hroom.money
    have hmul : (n + 1) * c'.worth ≤ (n + 1) * c.worth := Nat.mul_le_mul_left _ h.worth
    have := h.money
    rw [Nat.add_mul, Nat.one_mul] at hmoney
    omega
  supply := by
    have hsupply := hroom.supply
    rw [Nat.pow_succ, ← Nat.mul_assoc, Nat.mul_right_comm] at hsupply
    have := Nat.mul_le_mul_right (2 ^ n) h.supply
    rw [Nat.mul_comm 2] at this
    omega
  owed := h.owed.trans_lt hroom.owed
  ids := by
    have := hroom.ids
    have := h.ids
    omega

/-- What is restaked is the harvest. -/
theorem restaked_total {deps : Deps} {env : Env} {limit : Option ℕ} {st : Storage}
    (k : Compounded deps env limit st) :
    total (·.bonded) k.set = total (·.bonded) (harvestedSet deps env st k.stop) + k.harvested.val ∧
      total (·.pendingRewards) k.set = total (·.pendingRewards) (harvestedSet deps env st k.stop) := by
  rcases restake_ok k.restake_eq with ⟨hz, he, -⟩ | ⟨-, _, _, _, -, hplaced, -⟩
  · rw [he, hz]
    exact ⟨rfl, rfl⟩
  · obtain ⟨i, v, b, -, hv, hval, he, -⟩ := placeStake_eq_ok.1 hplaced
    have h₁ := total_set (·.bonded) { v with bonded := b } hv
    have h₂ := total_set (·.pendingRewards) { v with bonded := b } hv
    rw [he]
    dsimp only at h₁ h₂
    omega

/-- A task without messages moves only the storage. -/
theorem Left.of_silent {store : Storage} {resp : Response} (hm : resp.messages = [])
    (hr : resp.messages.foldlM run { c with store := store } = some c') :
    c' = { c with store := store } := by
  rw [hm] at hr
  exact (Option.some.inj hr).symm

theorem left_sync (hR : c.Reaches) (h : runTask view sender c .sync = some c') : Left c c' := by
  obtain ⟨-, store, resp, he, hr⟩ := runTask_eq_some.1 h
  obtain ⟨s, rfl, hm, -⟩ := executeSync_ok he
  obtain rfl := Left.of_silent hm hr
  obtain ⟨hbonded, hpending⟩ := synced_le hR s.cursor_le view
  have hb := s.bonded_val
  have hp := s.pending_val
  refine ⟨?_, Nat.le_refl _, Nat.le_mul_of_pos_left _ (by decide), Nat.le_refl _, Nat.le_succ _⟩
  show s.bonded.val + s.pending.val ≤ _
  unfold Chain.worth
  omega

theorem left_compound (hR : c.Reaches) (h : runTask view sender c .compound = some c') : Left c c' := by
  obtain ⟨answer, hn⟩ := runTask_next h
  have hM' := (hR.next hn).mirror.supply
  obtain ⟨-, store, resp, he, hr⟩ := runTask_eq_some.1 h
  have hran := runs_ok hr
  have hworth : c'.worth + _ = c.worth := hran.worth
  obtain ⟨k, rfl, -⟩ := executeCompound_ok he
  obtain ⟨hbonded, hpending⟩ := harvested_le hR k.cursor_le view
  have hharvest := harvest_le_held hR k
  have hb := k.bonded_val
  have hp := k.pending_val
  obtain ⟨hset, hsetp⟩ := restaked_total k
  have hfee : k.fee.val ≤ c.supply.val := by
    rw [k.fee_val, hR.mirror.supply]
    exact feeShares_le _ _ hR.reachable.fee_half
  have hsupply : c'.supply.val = c.supply.val + k.fee.val := by
    rw [← hM', hran.store, ← hR.mirror.supply]
    exact k.supply_val
  have hstore : c'.store = k.next := hran.store
  refine ⟨?_, by omega, by omega, ?_, ?_⟩
  · rw [hstore]
    show k.bonded.val + k.pending.val ≤ _
    unfold Chain.worth
    omega
  · rw [hstore]
    exact Nat.le_refl _
  · rw [hstore]
    exact Nat.le_succ _

theorem left_collect (hR : c.Reaches) (h : runTask view sender c .collectMatured = some c') :
    Left c c' := by
  obtain ⟨-, store, resp, he, hr⟩ := runTask_eq_some.1 h
  have hB := hR.reachable.booked
  obtain ⟨ids, hmat, hm⟩ := executeCollectMatured_ok he
  obtain rfl := Left.of_silent hm hr
  obtain ⟨balance, rets, -, hM, -⟩ := matureDueWindows_ok hB hmat
  -- what comes back is at most what the windows were owed in unbonding
  have hback : (rets.map (·.2.val)).sum ≤ ((rets.map (·.1)).map (owedIn c.store.windows)).sum := by
    rw [hM.sum_amounts]
    exact Nat.min_le_right _ _
  have howed : ((rets.map (·.1)).map (owedIn c.store.windows)).sum ≤
      c.store.totals.scrtOwedUnbonding.val := by
    rw [hM.due, hB.owedUnbonding]
    exact (((List.take_sublist _ _).map _).sum_le_sum fun _ _ => Nat.zero_le _).trans
      (sum_due_le hB.shape c.env.time)
  have hunbonding := hM.owedUnbonding
  have hmatured := hM.owedMatured
  have hframe := hM.frame
  have hopen : store.totals.scrtOwedOpen = c.store.totals.scrtOwedOpen := by rw [hframe]
  have hbonded : store.totals.totalBonded = c.store.totals.totalBonded := by rw [hframe]
  have hpending : store.totals.pendingRewards = c.store.totals.pendingRewards := by rw [hframe]
  have hid : store.nextWindowId = c.store.nextWindowId := by rw [hframe]
  refine ⟨?_, Nat.le_refl _, Nat.le_mul_of_pos_left _ (by decide), ?_, ?_⟩
  · show store.totals.totalBonded.val + store.totals.pendingRewards.val ≤ _
    rw [hbonded, hpending]
    exact Nat.le_add_right _ _
  · show store.totals.scrtOwedOpen.val + store.totals.scrtOwedUnbonding.val +
      store.totals.scrtOwedMatured.val ≤ _
    rw [hopen]
    omega
  · show store.nextWindowId ≤ _
    rw [hid]
    exact Nat.le_succ _

theorem left_advance (hR : c.Reaches) (h : runTask view sender c .advanceWindow = some c') :
    Left c c' := by
  obtain ⟨answer, hn⟩ := runTask_next h
  have hM' := (hR.next hn).mirror.supply
  obtain ⟨-, store, resp, he, hr⟩ := runTask_eq_some.1 h
  have hran := runs_ok hr
  have hworth : c'.worth + _ = c.worth := hran.worth
  have hstore : c'.store = store := hran.store
  obtain ⟨w, closing, hw, hopen, hdue, hc, hm⟩ := executeAdvanceWindow_ok he
  obtain ⟨used, hund, -, hstep⟩ := closeOpenWindow_ok hw hopen hdue hc
  have howes := hR.reachable.booked.open_owed hw
  have hid : store.nextWindowId = c.store.nextWindowId + 1 := by
    generalize hq : store.queue = q at hstep
    have hnext : store.nextWindowId = q.nextWindowId := congrArg Queue.nextWindowId hq
    rw [hnext]
    cases hstep <;> rfl
  -- what the window owes is no longer bonded, and moves from the open window to those in flight
  obtain ⟨hbonded, hpending, hsupply, howed⟩ :
      store.totals.totalBonded.val ≤ c.store.totals.totalBonded.val ∧
      store.totals.pendingRewards = c.store.totals.pendingRewards ∧
      store.totals.totalSupply = c.store.totals.totalSupply ∧
      store.totals.scrtOwedOpen.val + store.totals.scrtOwedUnbonding.val +
        store.totals.scrtOwedMatured.val = c.store.totals.scrtOwedOpen.val +
          c.store.totals.scrtOwedUnbonding.val + c.store.totals.scrtOwedMatured.val := by
    generalize store.totals = ts at hund ⊢
    generalize store.validators = vs at hund
    generalize closing.messages = messages at hund
    cases hund with
    | nothing hz => exact ⟨Nat.le_refl _, rfl, rfl, rfl⟩
    | issued hz hplan hissue hou =>
      refine ⟨?_, rfl, rfl, ?_⟩
      · rw [Word.val_satSub]
        exact Nat.sub_le _ _
      · simp only [Word.val_satSub, hou]
        omega
  refine ⟨?_, by omega, ?_, ?_, ?_⟩
  · rw [hstore, hpending]
    omega
  · rw [← hM', hstore, hsupply, hR.mirror.supply]
    exact Nat.le_mul_of_pos_left _ (by decide)
  · rw [hstore, howed]
  · rw [hstore, hid]

/-- **What a task leaves of the range.** -/
theorem runTask_left (hR : c.Reaches) (h : runTask view sender c task = some c') : Left c c' := by
  cases task with
  | compound => exact left_compound hR h
  | advanceWindow => exact left_advance hR h
  | collectMatured => exact left_collect hR h
  | sync => exact left_sync hR h

/-! ## Advancing -/

/-- The open window can be closed: it is overdue, free slots cover what it owes, and the validators
that it draws on still hold what is drawn. -/
def Closes (c : Chain) : Prop :=
  ∃ w, Overdue c.env c.store w ∧
    w.scrtOwed.val ≤ capacity c.store.config.params.maxUnbondEntriesPerValidator c.store.validators ∧
    c.Backed w.scrtOwed

/-- **An `AdvanceWindow` goes through exactly when the open window can be closed.** -/
theorem advance_goes_iff (hR : c.Reaches) (hroom : c.Room (n + 1)) (hs : ¬ c.IsContract sender)
    (view : Deps) : (∃ c', runTask view sender c .advanceWindow = some c') ↔ Closes c := by
  have hB := hR.reachable.booked
  have hiff : ∀ {w}, c.store.windows.lookup c.store.openWindow = some w →
      ((∃ r, closeOpenWindow c.env c.store = .ok r) ↔ _) := fun hw =>
    closeOpenWindow_iff hR.reachable.weighted hR.reachable.mirrored.total_lt hw
  have hfits : c.balance.val + c.held < 2 ^ 128 := by
    have hmoney := hroom.money
    have hworth : c.worth ≤ (n + 1 + 1) * c.worth := Nat.le_mul_of_pos_left _ (by omega)
    unfold Chain.worth at hworth hmoney
    omega
  constructor
  · rintro ⟨c', h⟩
    obtain ⟨-, store, resp, he, hr⟩ := runTask_eq_some.1 h
    obtain ⟨w, closing, hw, hopen, hdue, hc, hm⟩ := executeAdvanceWindow_ok he
    obtain ⟨used, hund, ⟨hcfg, -⟩, -⟩ := closeOpenWindow_ok hw hopen hdue hc
    obtain ⟨l, hl, hnd, hne, hback⟩ := closing_backed hR hund
    refine ⟨w, ⟨hw, hdue⟩, ((hiff hw).1 ⟨_, hc⟩).1, hback.1 ?_⟩
    refine (undelegations_iff (c := { c with store := store }) hnd hne hfits).1 ⟨c', ?_⟩
    show (l.map (undelegateMsg store.config.bondedDenom)).foldlM run _ = some c'
    rw [hcfg, ← hl, ← hm]
    exact hr
  · rintro ⟨w, ho, hcap, hbacked⟩
    have howes := hB.open_owed ho.lookup
    have howed := hroom.owed
    have hids := hroom.ids
    have hrange : InRange c.store w := ⟨fun _ => by omega, by omega⟩
    obtain ⟨store, resp, he, -⟩ := (advance_iff hR.reachable ho).2 ⟨hcap, hrange⟩ (c.deps view)
      ⟨sender, []⟩
    obtain ⟨w', closing, hw', hopen, hdue, hc, hm⟩ := executeAdvanceWindow_ok he
    obtain rfl := Option.some.inj (ho.lookup.symm.trans hw')
    obtain ⟨used, hund, ⟨hcfg, -⟩, -⟩ := closeOpenWindow_ok hw' hopen hdue hc
    obtain ⟨l, hl, hnd, hne, hback⟩ := closing_backed hR hund
    obtain ⟨c', hr⟩ := (undelegations_iff (c := { c with store := store }) hnd hne hfits).2
      (hback.2 hbacked)
    refine ⟨c', runTask_eq_some.2 ⟨hs, store, resp, he, ?_⟩⟩
    rw [hm, hl, ← hcfg]
    exact hr

/-! ## The transaction -/

/-- **When a task goes through**: always, but for an `AdvanceWindow`. -/
theorem runTask_iff (hR : c.Reaches) (ht : c.store.config.token = some token)
    (hroom : c.Room (n + 1)) (hs : ¬ c.IsContract sender) (view : Deps) :
    (∃ c', runTask view sender c task = some c') ↔ (task = .advanceWindow → Closes c) := by
  cases task with
  | compound => exact iff_of_true (exists_compounded hR ht hroom hs view) nofun
  | advanceWindow =>
    rw [advance_goes_iff hR hroom hs view]
    exact ⟨fun h _ => h, fun h => h rfl⟩
  | collectMatured => exact iff_of_true (exists_collected hR hs view) nofun
  | sync => exact iff_of_true (exists_sync hR hroom hs view) nofun

/-- A transaction runs its tasks, if it has any. -/
theorem runUpkeep_eq_ok : runUpkeep view sender tasks c = .ok c' ↔
    tasks ≠ [] ∧ tasks.foldlM (runTask view sender) c = some c' := by
  unfold runUpkeep
  by_cases hne : tasks = []
  · simp [hne]
  · rw [if_neg hne]
    cases tasks.foldlM (runTask view sender) c <;> simp [hne]

/-- No task reconfigures. -/
theorem reconfigured_task {config config' : Config}
    (h : Reconfigured config (upkeepMsg task) config') : config' = config := by
  generalize hm : upkeepMsg task = msg at h
  cases h with
  | same => rfl
  | bound | paused | fee => cases task <;> cases hm

/-- A task keeps the contract's account and its configuration. -/
theorem runTask_kept (hR : c.Reaches) (h : runTask view sender c task = some c') :
    c'.self = c.self ∧ c'.store.config = c.store.config := by
  obtain ⟨-, store, resp, he, hr⟩ := runTask_eq_some.1 h
  have hran := runs_ok hr
  refine ⟨hran.self, ?_⟩
  rw [hran.store]
  exact reconfigured_task (execute_settings hR.reachable.booked he).1

/-- **A transaction of upkeep is refused for one reason**: it is empty, or one of its
`AdvanceWindow`s comes to a window that cannot be closed. -/
theorem upkeep_iff (hR : c.Reaches) (ht : c.store.config.token = some token)
    (hroom : c.Room tasks.length) (hs : ¬ c.IsContract sender) (view : Deps) :
    (∃ c', runUpkeep view sender tasks c = .ok c') ↔ tasks ≠ [] ∧
      ∀ before after c₁, tasks = before ++ .advanceWindow :: after →
        before.foldlM (runTask view sender) c = some c₁ → Closes c₁ := by
  have hgoes : (∃ c', tasks.foldlM (runTask view sender) c = some c') ↔
      ∀ before task after c₁, tasks = before ++ task :: after →
        before.foldlM (runTask view sender) c = some c₁ → task = .advanceWindow → Closes c₁ := by
    refine exists_foldlM_iff (g := fun c task => task = .advanceWindow → Closes c)
      (P := fun n c₁ => c₁.Reaches ∧ c₁.store.config.token = some token ∧
        ¬ c₁.IsContract sender ∧ c₁.Room n) ?_ ?_ ⟨hR, ht, hs, hroom⟩
    · exact fun n c₁ task h => runTask_iff h.1 h.2.1 h.2.2.2 h.2.2.1 view
    · rintro n c₁ task c₂ ⟨hR, ht, hs, hroom⟩ h
      obtain ⟨answer, hn⟩ := runTask_next h
      obtain ⟨hself, hconfig⟩ := runTask_kept hR h
      refine ⟨hR.next hn, hconfig ▸ ht, ?_, (runTask_left hR h).room hroom⟩
      unfold IsContract
      rw [hself, hconfig]
      exact hs
  simp only [runUpkeep_eq_ok, exists_and_left, hgoes]
  refine and_congr_right fun _ => ⟨?_, ?_⟩
  · exact fun h before after c₁ hsplit hrun => h before _ after c₁ hsplit hrun rfl
  · rintro h before task after c₁ hsplit hrun rfl
    exact h before after c₁ hsplit hrun

/-- A user deposits 100 SCRT and sends 45 of the shares back; then the validator is slashed by 60, and
the window is due. -/
def devCut : List ChainEvent := [devSeed, devEnter "user" (Uint128.new 100000000) .deposit,
  devSend "user" (Uint128.new 45000000), .slash "validatortwo" (Uint128.new 60000000),
  .time (devStart + 432000)]

set_option maxRecDepth 10000 in
/-- Alone the window cannot be closed, for it draws on stake that is gone; behind a compound, which reads
the stake again, it can. -/
theorem upkeep_iff_cut : ∃ c : Chain, c.Reaches ∧
    (∃ c', runUpkeep (devView 0 []) "keeper" [.compound, .advanceWindow] c = .ok c') ∧ ¬ Closes c ∧
    ∀ c₁, runTask (devView 0 []) "keeper" c .compound = some c₁ → Closes c₁ := by
  have hrun : (devChain.replay devCut).map (fun s =>
      (s.1.store.config.token, decide (s.1.IsContract "keeper"),
        (runUpkeep (devView 0 []) "keeper" [.advanceWindow] s.1).toOption.isSome,
        (runUpkeep (devView 0 []) "keeper" [.compound, .advanceWindow] s.1).toOption.isSome,
        decide (s.1.store.totals.totalBonded.val + s.1.store.totals.pendingRewards.val +
          3 * s.1.worth < 2 ^ 128 ∧ s.1.supply.val * 4 < 2 ^ 128 ∧
          s.1.store.totals.scrtOwedOpen.val + s.1.store.totals.scrtOwedUnbonding.val +
            s.1.store.totals.scrtOwedMatured.val < 2 ^ 128 ∧
          s.1.store.nextWindowId + 2 ≤ u64Max))) =
      some (some ⟨"token", "tokenhash"⟩, false, false, true, true) := by decide +kernel
  obtain ⟨⟨c, h⟩, hr, hs⟩ := Option.map_eq_some_iff.1 hrun
  simp only [Prod.mk.injEq, decide_eq_false_iff_not, decide_eq_true_eq, Option.isSome_iff_exists,
    Option.isSome_eq_false_iff, Option.isNone_iff_eq_none, toOption_eq_some] at hs
  obtain ⟨ht, hsender, hrefused, hgoes, hmoney, hsupply, howed, hids⟩ := hs
  have hR : c.Reaches := ⟨devChain, h, devChain_fresh, replay_ok hr⟩
  have hone : c.Room [UpkeepTask.advanceWindow].length :=
    ⟨show _ + (1 + 1) * _ < _ by omega, show _ * 2 ^ 1 < _ by omega, howed, show _ + 1 ≤ _ by omega⟩
  have htwo : c.Room [UpkeepTask.compound, UpkeepTask.advanceWindow].length :=
    ⟨hmoney, hsupply, howed, hids⟩
  refine ⟨c, hR, hgoes, fun hcloses => ?_, fun c₁ h₁ => ?_⟩
  · obtain ⟨c', hc'⟩ := (upkeep_iff hR ht hone hsender (devView 0 [])).2
      ⟨List.cons_ne_nil _ _, fun before after c₁ hsplit hc₁ => by
        obtain ⟨rfl, -⟩ := List.cons_eq_append_iff.1 hsplit |>.resolve_right (by simp)
        obtain rfl := Option.some.inj hc₁
        exact hcloses⟩
    rw [hc'] at hrefused
    cases hrefused
  · exact ((upkeep_iff hR ht htwo hsender _).1 hgoes).2 [.compound] [] c₁ rfl (by
      rw [List.foldlM_cons, h₁]
      rfl)

end Browser

end LstCore
