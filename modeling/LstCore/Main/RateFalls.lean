import LstCore.Main.Coverage
import LstCore.Main.NoDilution
import LstCore.Main.SupplyCeiling
import LstCore.Proof.Passage
import LstCore.Spec.Checks

/-!
# A fall of the reported rate

The keeper takes a fall of the exchange rate from one pass to the next for a slash. The rate is
reported from the cache, so it also falls when the cache had reported what was not there, when a
marking sets money aside that had come back before, and when a compound mints the fee on rewards
that were counted already (`rate_fall_explained`).

* `sureAssets`: the assets that the cache has and that are there.
* `sure_step`: what is sure of a share falls in no other way.
-/

namespace LstCore

open Lib

/-- A sum over a list whose members have distinct keys is at most the sum over another, where each
summand is zero or bounded by one of the other with the same key. -/
theorem sum_le_sum_of_key {α κ : Type*} {f g : α → ℕ} (key : α → κ) {l' : List α} :
    ∀ {l : List α}, (l'.map key).Nodup →
      (∀ x ∈ l', f x = 0 ∨ ∃ y ∈ l, key y = key x ∧ f x ≤ g y) →
      (l'.map f).sum ≤ (l.map g).sum := by
  classical
  induction l' with
  | nil => exact fun _ _ => Nat.zero_le _
  | cons x l' ih =>
    intro l hnd h
    rw [List.map_cons, List.nodup_cons] at hnd
    rw [List.map_cons, List.sum_cons]
    rcases h x List.mem_cons_self with hz | ⟨y, hy, hk, hle⟩
    · rw [hz, Nat.zero_add]
      exact ih hnd.2 fun z hz => h z (List.mem_cons_of_mem x hz)
    · -- the others have other keys, so theirs are bounded by what is left
      rw [((List.perm_cons_erase hy).map g).sum_eq, List.map_cons, List.sum_cons]
      refine Nat.add_le_add hle (ih hnd.2 fun z hz => ?_)
      rcases h z (List.mem_cons_of_mem x hz) with hzero | ⟨u, hu, hku, hle'⟩
      · exact .inl hzero
      · refine .inr ⟨u, (List.mem_erase_of_ne ?_).2 hu, hku, hle'⟩
        rintro rfl
        refine hnd.1 ?_
        rw [← hk, hku]
        exact List.mem_map_of_mem hz

/-! ## The rewards in the cache -/

/-- The rewards of a set, as they are cached. -/
def cachedRewards (set : List ValidatorEntry) : List (String × Uint128) :=
  set.map fun v => (v.address, v.pendingRewards)

section

variable {env : Env} {info : MessageInfo} {st st' : Storage} {set set' : List ValidatorEntry}

theorem mem_cachedRewards (h : cachedRewards set' = cachedRewards set) {v' : ValidatorEntry}
    (hv' : v' ∈ set') : ∃ v ∈ set, v.address = v'.address ∧ v.pendingRewards = v'.pendingRewards := by
  have hmem : (v'.address, v'.pendingRewards) ∈ cachedRewards set := by
    rw [← h]
    exact List.mem_map_of_mem hv'
  obtain ⟨v, hv, he⟩ := List.mem_map.1 hmem
  rw [Prod.mk.injEq] at he
  exact ⟨v, hv, he⟩

theorem cachedRewards_set {i : ℕ} {v v' : ValidatorEntry} (hv : set[i]? = some v)
    (h : (v'.address, v'.pendingRewards) = (v.address, v.pendingRewards)) :
    cachedRewards (set.set i v') = cachedRewards set := map_set hv h

theorem closing_cachedRewards {closing : Closing} {w : UnbondWindow}
    (hw : st.windows.lookup st.openWindow = some w) (hopen : w.state = .open)
    (hdue : w.closesAt ≤ env.time) (hc : closeOpenWindow env st = .ok (st', closing)) :
    cachedRewards st'.validators = cachedRewards st.validators := by
  obtain ⟨used, hund, -⟩ := closeOpenWindow_ok hw hopen hdue hc
  generalize st'.totals = ts at hund
  generalize st'.validators = vs at hund ⊢
  generalize closing.messages = messages at hund
  cases hund with
  | nothing => rfl
  | issued hz hplan hissue hou =>
    refine foldlM_inv (f := issueLeg st.config.bondedDenom)
      (fun _ acc => cachedRewards acc.set = cachedRewards st.validators) ?_ _ _ _ rfl hissue
    intro leg rest acc acc' hacc hstep
    obtain ⟨v, hv, rfl⟩ := issueLeg_eq_ok.1 hstep
    exact (cachedRewards_set hv (by rfl)).trans hacc

theorem overdue_cachedRewards {messages : List CosmosMsg}
    (hc : closeWindowIfOverdue env st = .ok (st', messages)) :
    cachedRewards st'.validators = cachedRewards st.validators := by
  rcases closeWindowIfOverdue_ok hc with ⟨rfl, -⟩ | ⟨w, closing, hw, hopen, hdue, hc, -⟩
  · rfl
  · exact closing_cachedRewards hw hopen hdue hc

theorem marking_cachedRewards {now limit : ℕ} {balance : Uint128} {rets : List (ℕ × Uint128)}
    (hM : Marking now limit balance st st' rets) :
    cachedRewards st'.validators = cachedRewards st.validators := by
  rw [hM.frame]
  exact map_release (fun _ _ => rfl) _ _

theorem rebalance_cachedRewards {allowlist : List String} {denom : String} {plan : List RedelegateStep}
    {acc acc' : RebalanceAcc} (h : plan.foldlM (rebalanceStep allowlist denom) acc = .ok acc') :
    cachedRewards acc'.set = cachedRewards acc.set := by
  refine foldlM_inv (f := rebalanceStep allowlist denom)
    (fun _ a => cachedRewards a.set = cachedRewards acc.set) ?_ _ _ _ rfl h
  intro step rest a a' ha hstep
  obtain ⟨-, hv, -, -, hu, -⟩ := rebalanceStep_redelegated hstep
  exact (cachedRewards_set hu (by rfl)).trans ((cachedRewards_set hv (by rfl)).trans ha)

end

namespace Chain

variable {c c' c₁ : Chain} {view view' : Deps} {info : MessageInfo} {store : Storage} {resp : Response}
  {messages : List CosmosMsg}

/-! ## What is sure -/

/-- The rewards that the cache has and that are there. -/
def seen (c : Chain) : ℕ :=
  (c.store.validators.map fun v => min v.pendingRewards.val (c.stakeOf v.address).rewards.val).sum

/-- The rewards that are there and that the cache does not have. -/
def unseen (c : Chain) : ℕ :=
  (c.store.validators.map fun v => (c.stakeOf v.address).rewards.val - v.pendingRewards.val).sum

/-- The assets that the cache has and that are there. -/
def sureAssets (c : Chain) : ℕ := c.worth - c.unseen - c.store.reserved

/-- A column of the delegations, entry by entry. -/
theorem Housed.total_eq (h : Housed c) (hnd : (c.store.validators.map (·.address)).Nodup)
    (f : Stake → ℕ) (hf : f ⟨0, 0⟩ = 0) : c.stakes.total (fun _ s => f s) =
      (c.store.validators.map fun v => f (c.stakeOf v.address)).sum := by
  rw [Keymap.total_eq_sum (f := fun _ s => f s) hnd fun v s hs _ => h v (mem_stakes hs), List.map_map]
  exact congrArg List.sum (List.map_congr_left fun v _ => stakeOf_elim f hf)

theorem Reaches.nodup (h : c.Reaches) : (c.store.validators.map (·.address)).Nodup := by
  rw [← addresses_eq]
  exact h.reachable.slotted.distinct

theorem Reaches.seen_add_unseen (h : c.Reaches) : c.seen + c.unseen = c.held := by
  rw [seen, unseen, held, h.housed.total_eq h.nodup (·.rewards.val) rfl, ← List.sum_map_add]
  refine congrArg List.sum (List.map_congr_left fun v _ => ?_)
  omega

theorem sure_le_assets (h : c.Reaches) : c.sureAssets ≤ c.assets := by
  rw [h.assets_eq, sureAssets]
  omega

/-- **The cache has what is sure.** -/
theorem sure_le_cached (h : c.Reaches) : c.sureAssets ≤ c.cachedAssets := by
  have hM := h.reachable.mirrored
  have hbonded : c.bonded ≤ c.store.totals.totalBonded.val := by
    rw [hM.bonded, bonded, h.housed.total_eq h.nodup (·.amount.val) rfl]
    exact List.sum_le_sum fun v hv => Word.le_def.1 (h.covered v hv)
  have hseen : c.seen ≤ c.store.totals.pendingRewards.val := by
    rw [hM.pending]
    exact List.sum_le_sum fun v _ => Nat.min_le_left _ _
  have hheld := h.seen_add_unseen
  rw [sureAssets, cachedAssets, worth]
  omega

/-- The cache has a delegation that is not there, or rewards. -/
def Overstated (c : Chain) : Prop :=
  ∃ v ∈ c.store.validators,
    (c.stakeOf v.address).amount < v.bonded ∨ (c.stakeOf v.address).rewards < v.pendingRewards

instance (c : Chain) : Decidable c.Overstated := inferInstanceAs (Decidable (∃ _ ∈ _, _ ∨ _))

/-- **Unless it overstates, it has no more.** -/
theorem cached_le_sure (h : c.Reaches) (ho : ¬ c.Overstated) : c.cachedAssets ≤ c.sureAssets := by
  have hM := h.reachable.mirrored
  have hno : ∀ v ∈ c.store.validators, v.bonded.val ≤ (c.stakeOf v.address).amount.val ∧
      v.pendingRewards.val ≤ (c.stakeOf v.address).rewards.val := by
    intro v hv
    refine ⟨?_, ?_⟩
    · by_contra hlt
      exact ho ⟨v, hv, .inl (Word.lt_def.2 (not_le.1 hlt))⟩
    · by_contra hlt
      exact ho ⟨v, hv, .inr (Word.lt_def.2 (not_le.1 hlt))⟩
  have hbonded : c.store.totals.totalBonded.val ≤ c.bonded := by
    rw [hM.bonded, bonded, h.housed.total_eq h.nodup (·.amount.val) rfl]
    exact List.sum_le_sum fun v hv => (hno v hv).1
  have hseen : c.store.totals.pendingRewards.val ≤ c.seen := by
    rw [hM.pending]
    exact List.sum_le_sum fun v hv => Nat.le_min.2 ⟨Nat.le_refl _, (hno v hv).2⟩
  have hheld := h.seen_add_unseen
  rw [sureAssets, cachedAssets, worth]
  omega

/-! ## What a call leaves unseen -/

/-- The cache has the rewards of an entry, or has what it had of them, or they are paid. -/
def Told (c : Chain) (messages : List CosmosMsg) (v' : ValidatorEntry) : Prop :=
  (c.stakeOf v'.address).rewards ≤ v'.pendingRewards ∨ v'.address ∈ paidBy messages ∨
    ∃ v ∈ c.store.validators, v.address = v'.address ∧ v.pendingRewards = v'.pendingRewards

theorem told_of_cached {set : List ValidatorEntry}
    (h : cachedRewards set = cachedRewards c.store.validators) : ∀ v' ∈ set, c.Told messages v' :=
  fun _ hv' => .inr (.inr (mem_cachedRewards h hv'))

/-- What is unseen once messages have run. -/
theorem unseen_runs (hr : messages.foldlM run { c with store := store } = some c') :
    c'.unseen = (store.validators.map fun v =>
      if v.address ∈ paidBy messages then 0
      else (c.stakeOf v.address).rewards.val - v.pendingRewards.val).sum := by
  have hran := runs_ok hr
  rw [unseen, hran.store]
  refine congrArg List.sum (List.map_congr_left fun v _ => ?_)
  have hrewards : (c'.stakeOf v.address).rewards =
      if v.address ∈ paidBy messages then 0 else (c.stakeOf v.address).rewards := hran.rewards v.address
  rw [hrewards]
  split
  · exact Nat.zero_sub _
  · rfl

/-- **What a call leaves unseen** was unseen before it. -/
theorem unseen_le (hnd : (store.validators.map (·.address)).Nodup)
    (h : ∀ v' ∈ store.validators, c.Told messages v')
    (hr : messages.foldlM run { c with store := store } = some c') : c'.unseen ≤ c.unseen := by
  rw [unseen_runs hr]
  refine sum_le_sum_of_key (·.address) hnd fun v' hv' => ?_
  split
  · exact .inl rfl
  · rename_i hpaid
    rcases h v' hv' with hle | hp | ⟨v, hv, ha, hp⟩
    · exact .inl (Nat.sub_eq_zero_of_le (Word.le_def.1 hle))
    · exact absurd hp hpaid
    · refine .inr ⟨v, hv, ha, ?_⟩
      rw [ha, hp]

/-- **A call that reads the whole set leaves nothing unseen.** -/
theorem unseen_eq_zero
    (h : ∀ v' ∈ store.validators, (c.stakeOf v'.address).rewards ≤ v'.pendingRewards)
    (hr : messages.foldlM run { c with store := store } = some c') : c'.unseen = 0 := by
  rw [unseen_runs hr]
  refine List.sum_eq_zero fun n hn => ?_
  obtain ⟨v', hv', rfl⟩ := List.mem_map.1 hn
  split
  · rfl
  · exact Nat.sub_eq_zero_of_le (Word.le_def.1 (h v' hv'))

/-- A price is read from the whole set. -/
theorem told_of_refreshed {st₁ : Storage} (h : refreshTotals (c.deps view) c.env c.store = .ok st₁)
    {set : List ValidatorEntry} (hset : cachedRewards set = cachedRewards st₁.validators) :
    ∀ v' ∈ set, (c.stakeOf v'.address).rewards ≤ v'.pendingRewards := by
  intro v' hv'
  obtain ⟨v, hv, ha, hp⟩ := mem_cachedRewards hset hv'
  rw [refreshed_set h] at hv
  obtain ⟨u, hu, rfl⟩ := List.mem_map.1 hv
  rw [← ha, ← hp]
  exact Nat.le_refl _

theorem deposit_told (h : executeDeposit (c.deps view) c.env info c.store = .ok (store, resp)) :
    ∀ v' ∈ store.validators, (c.stakeOf v'.address).rewards ≤ v'.pendingRewards := by
  obtain ⟨st₁, _, _, _, closing, ha, hc, -⟩ := executeDeposit_ok h
  obtain ⟨d, rfl, -⟩ := acceptDeposit_ok ha
  refine told_of_refreshed d.refreshed ((overdue_cachedRewards hc).trans ?_)
  exact map_placeStake (fun _ _ => rfl) d.placed

theorem receive_told {fromAddr : Addr} {amount : Uint128} {hook : Option Binary}
    (h : executeReceive (c.deps view) c.env info fromAddr amount hook c.store = .ok (store, resp)) :
    ∀ v' ∈ store.validators, (c.stakeOf v'.address).rewards ≤ v'.pendingRewards := by
  obtain ⟨st₁, _, _, _, closing, ha, hc, -⟩ := executeReceive_ok h
  obtain ⟨st₂, -, -, -, -, hprice, hj⟩ := requestWithdrawal_ok ha
  obtain ⟨pool, hpool, -⟩ := priceWithdrawal_eq_ok.1 hprice
  obtain ⟨u, oo, -, -, -, hst⟩ := joinWindow_ok hj
  refine told_of_refreshed (pricingPool_eq_ok.1 hpool).1 ((overdue_cachedRewards hc).trans ?_)
  rw [hst]

/-- A page that is read again, or reaped. -/
theorem told_of_page (f : ValidatorEntry → ValidatorEntry) (cursor stop : ℕ)
    {set : List ValidatorEntry} (hset : cachedRewards set = cachedRewards
      (withPage cursor stop c.store.validators ((pageOf cursor stop c.store.validators).map f)))
    (hf : ∀ v ∈ pageOf cursor stop c.store.validators, c.Told messages (f v)) :
    ∀ v' ∈ set, c.Told messages v' := by
  intro v' hv'
  obtain ⟨v, hv, ha, hp⟩ := mem_cachedRewards hset hv'
  have hkept : v ∈ c.store.validators → c.Told messages v' := fun hv => .inr (.inr ⟨v, hv, ha, hp⟩)
  unfold withPage at hv
  split at hv
  · rw [List.append_assoc, List.mem_append, List.mem_append] at hv
    rcases hv with hv | hv | hv
    · exact hkept (List.mem_of_mem_take hv)
    · obtain ⟨u, hu, rfl⟩ := List.mem_map.1 hv
      have htold := hf u hu
      rwa [Told, ha, hp] at htold
    · exact hkept (List.mem_of_mem_drop hv)
  · exact hkept hv

theorem compound_told {limit : Option ℕ}
    (h : executeCompound (c.deps view) c.env limit c.store = .ok (store, resp)) :
    ∀ v' ∈ store.validators, c.Told resp.messages v' := by
  obtain ⟨k, rfl, hm, -⟩ := executeCompound_ok h
  refine told_of_page c.reap c.store.syncCursor k.stop ?_ fun v hv => ?_
  · have hset : harvestedSet (c.deps view) c.env c.store k.stop = withPage c.store.syncCursor k.stop
        c.store.validators ((pageOf c.store.syncCursor k.stop c.store.validators).map c.reap) := by
      rw [← harvestEntry_eq view]
      rfl
    rw [← hset]
    exact map_restake (fun _ _ => rfl) k.restake_eq
  · -- rewards that there are have been withdrawn
    by_cases hz : (c.stakeOf v.address).rewards = 0
    · refine .inl ?_
      show (c.stakeOf v.address).rewards ≤ _
      rw [hz]
      exact Nat.zero_le _
    · refine .inr (.inl ?_)
      rw [hm, Compounded.messages, paidBy_append, List.mem_append]
      refine .inl ?_
      show v.address ∈ paidBy (withdrawals (c.deps view) c.self.address _ _)
      rw [withdrawals_paid]
      exact List.mem_map_of_mem (List.mem_filter.2 ⟨hv, by simpa using hz⟩)

/-- **The cache loses sight of no rewards.** -/
theorem execute_told {msg : ExecuteMsg} (hB : Booked c.store) (hH : Housed c)
    (h : execute (c.deps view) c.env info msg c.store = .ok (store, resp)) :
    ∀ v' ∈ store.validators, c.Told resp.messages v' := by
  cases msg with
  | deposit => exact fun v' hv' => .inl (deposit_told h v' hv')
  | receive sender fromAddr amount hook => exact fun v' hv' => .inl (receive_told h v' hv')
  | compound limit => exact compound_told h
  | claimMatured windowIds =>
    obtain ⟨_, _, st₁, _, _, -, hM, -, hP, -, -⟩ := executeClaimMatured_ok hB h
    refine told_of_cached ?_
    rw [hP.frame]
    show cachedRewards st₁.validators = _
    exact marking_cachedRewards hM
  | advanceWindow =>
    obtain ⟨w, closing, hw, hopen, hdue, hc, -⟩ := executeAdvanceWindow_ok h
    exact told_of_cached (closing_cachedRewards hw hopen hdue hc)
  | collectMatured limit =>
    obtain ⟨ids, hmat, -⟩ := executeCollectMatured_ok h
    obtain ⟨_, _, -, hM, -⟩ := matureDueWindows_ok hB hmat
    exact told_of_cached (marking_cachedRewards hM)
  | sync limit =>
    obtain ⟨s, rfl, -⟩ := executeSync_ok h
    refine told_of_page c.read c.store.syncCursor s.stop ?_ fun v _ => .inl (Nat.le_refl _)
    show cachedRewards (syncedSet (c.deps view) c.env c.store s.stop) = _
    rw [syncedSet, show readEntry (c.deps view) c.env.contract.address c.store.config.bondedDenom =
      c.read from readEntry_eq view]
  | manager m =>
    rcases executeManager_ok h with ⟨ws, rfl, hval, rfl, -⟩ | ⟨_, -, -, rfl, -⟩ | ⟨_, acc, -, hacc, rfl, -⟩
    · intro v' hv'
      rcases mem_applyWeights (validateSet_nodup (validateManagedWeights_mem hval).1).2 hv' with
        ⟨u, hu, rfl⟩ | ⟨-, -, hout⟩
      · obtain ⟨hslot, -, hpending⟩ := reweigh_slot ws u
        exact .inr (.inr ⟨u, hu, (congrArg Prod.fst hslot).symm, hpending.symm⟩)
      · -- who joins has no delegation
        refine .inl ?_
        rw [hH.stakeOf_eq hout]
        exact Nat.zero_le _
    · exact told_of_cached rfl
    · exact told_of_cached (rebalance_cachedRewards hacc)
  | setPaused paused =>
    obtain ⟨rfl, -⟩ := executeSetPaused_ok h
    exact told_of_cached rfl
  | bootstrap addr hash =>
    obtain ⟨s, rfl, -⟩ := executeBootstrap_ok h
    exact told_of_cached (map_placeStake (fun _ _ => rfl) s.placed)

/-! ## What leaves with a call -/

theorem leavingBy_eq_zero {self : Addr} {denom : String} (h : ∀ m ∈ messages, m.leaving self denom = 0) :
    leavingBy self denom messages = 0 := by
  refine List.sum_eq_zero fun n hn => ?_
  obtain ⟨m, hm, rfl⟩ := List.mem_map.1 hn
  exact h m hm

/-- A call that marks nothing. -/
theorem marking_reserved {st st₁ : Storage} {now limit : ℕ} {balance : Uint128}
    {rets : List (ℕ × Uint128)} (hM : Marking now limit balance st st₁ rets)
    (hm : marksOf st now (some limit) = []) : st₁.reserved = st.reserved := by
  have hnil : rets = [] := List.map_eq_nil_iff.1 (hM.taken.ids.trans hm)
  have hmatured := hM.owedMatured
  have hopen : st₁.totals.scrtOwedOpen = st.totals.scrtOwedOpen := by rw [hM.frame]
  rw [hnil, List.map_nil, List.sum_nil, Nat.add_zero] at hmatured
  rw [Storage.reserved, Storage.reserved, hopen, hmatured]

/-- **No more leaves with a call than what is set aside goes down by**, unless it trades or marks. -/
theorem execute_leaving {msg : ExecuteMsg} (hB : Booked c.store) (self : Addr) (denom : String)
    (hdeposit : msg ≠ .deposit) (hreceive : ∀ s f a h, msg ≠ .receive s f a h)
    (hm : marksOf c.store c.now msg.markLimit = [])
    (h : execute (c.deps view) c.env info msg c.store = .ok (store, resp)) :
    ∃ x, store.reserved + x = c.store.reserved ∧ leavingBy self denom resp.messages ≤ x := by
  have hstill : Still c.store store → leavingBy self denom resp.messages = 0 →
      ∃ x, store.reserved + x = c.store.reserved ∧ leavingBy self denom resp.messages ≤ x :=
    fun hs hl => ⟨0, Still.reserved hs, hl.le⟩
  cases msg with
  | deposit => exact absurd rfl hdeposit
  | receive sender fromAddr amount hook => exact absurd rfl (hreceive _ _ _ _)
  | compound limit =>
    obtain ⟨k, rfl, -⟩ := executeCompound_ok h
    refine hstill k.still (leavingBy_eq_zero fun m hm => ?_)
    rcases executeCompound_messages h m hm with ⟨_, rfl⟩ | ⟨_, _, rfl⟩ | ⟨_, _, rfl⟩ <;> rfl
  | claimMatured windowIds =>
    obtain ⟨_, _, st₁, paid, _, -, hM, -, hP, -, hmsgs⟩ := executeClaimMatured_ok hB h
    have hleft := hP.owed_left
    have hopen : store.totals.scrtOwedOpen = st₁.totals.scrtOwedOpen := by rw [hP.frame]
    have hsame := marking_reserved hM hm
    refine ⟨paid.val, ?_, ?_⟩
    · rw [← hsame, Storage.reserved, Storage.reserved, hopen]
      omega
    · rw [hmsgs, leavingBy_cons, leavingBy_nil, Nat.add_zero, CosmosMsg.leaving]
      split
      · exact Nat.zero_le _
      · simp only [amountIn, List.filter_cons, List.filter_nil]
        split <;> simp
  | advanceWindow =>
    obtain ⟨w, closing, hw, hopen, hdue, hc, hmsgs⟩ := executeAdvanceWindow_ok h
    rw [hmsgs]
    exact ⟨_, closing_reserved hB hw hopen hdue hc self denom, Nat.le_refl _⟩
  | collectMatured limit =>
    obtain ⟨ids, hmat, hmsgs⟩ := executeCollectMatured_ok h
    obtain ⟨_, _, -, hM, -⟩ := matureDueWindows_ok hB hmat
    rw [hmsgs]
    exact ⟨0, marking_reserved hM hm, Nat.le_refl _⟩
  | sync limit =>
    obtain ⟨k, rfl, hmsgs, -⟩ := executeSync_ok h
    exact hstill k.still (by rw [hmsgs, leavingBy_nil])
  | manager m =>
    refine ⟨0, ?_, le_of_eq (leavingBy_eq_zero fun x hx => ?_)⟩
    · rcases executeManager_ok h with ⟨_, -, -, rfl, -⟩ | ⟨_, -, -, rfl, -⟩ | ⟨_, _, -, -, rfl, -⟩ <;> rfl
    · obtain ⟨_, _, _, rfl⟩ := executeManager_messages h x hx
      rfl
  | setPaused paused =>
    obtain ⟨rfl, hmsgs⟩ := executeSetPaused_ok h
    rw [hmsgs]
    exact ⟨0, rfl, Nat.le_refl _⟩
  | bootstrap addr hash =>
    obtain ⟨k, rfl, hmsgs⟩ := executeBootstrap_ok h
    rw [hmsgs]
    exact ⟨0, rfl, Nat.le_refl _⟩

/-! ## One event -/

/-- What can lower the rate that is reported. -/
inductive Lowers (c : Chain) (e : ChainEvent × Option ExecuteAnswer) : Prop
  | slash {v : String} {amount : Uint128} (hne : amount ≠ 0) (he : e.1 = .slash v amount)
  | marking {view : Deps} {info : MessageInfo} {msg : ExecuteMsg} (he : e.1 = .call view info msg)
      (hm : marksOf c.store c.now msg.markLimit ≠ [])
  | fee (hf : feeOf e ≠ 0)

/-- What is sure is no less, and the supply is the same. -/
theorem sure_step_of_le (hle : c.sureAssets ≤ c'.sureAssets) (hs : c'.supply = c.supply) :
    c.sureAssets * c'.supply.val ≤ c'.sureAssets * c.supply.val := by
  rw [hs]
  exact Nat.mul_le_mul_right _ hle

/-- **A trade** is priced on all there is, and what is sure after it is all there is. -/
theorem sure_trade {e : ChainEvent × Option ExecuteAnswer} (hR : c.Reaches)
    (ht : c.store.config.token ≠ none) (hn : Next c e c') (he : Trades e.1) (hz : c'.unseen = 0) :
    c.sureAssets * c'.supply.val ≤ c'.sureAssets * c.supply.val := by
  have hsure : c'.sureAssets = c'.assets := by
    rw [(hR.next hn).assets_eq, sureAssets, hz, Nat.sub_zero]
  rw [hsure]
  exact (Nat.mul_le_mul_right _ (sure_le_assets hR)).trans (trade_step hR ht he hn).1.price

/-- The fee is all that a call mints that does not deposit, once the token is bound. -/
theorem call_minted {msg : ExecuteMsg} (hB : Booked c.store) (ht : c.store.config.token ≠ none)
    (hdeposit : msg ≠ .deposit) (hfee : feeOf (.call view info msg, resp.data) = 0)
    (h : execute (c.deps view) c.env info msg c.store = .ok (store, resp)) :
    mintedBy resp.messages = 0 := by
  cases msg with
  | deposit => exact absurd rfl hdeposit
  | bootstrap addr hash => exact absurd (executeBootstrap_minted h).1 ht
  | compound limit =>
    obtain ⟨harvested, fee, processed, done, hdata, hmint⟩ := executeCompound_minted h
    rw [hdata] at hfee
    rw [hmint]
    exact hfee
  | _ => exact mintedBy_eq_zero hB rfl h

/-- **A call that does not deposit**, mark or mint a fee. -/
theorem sure_call {msg : ExecuteMsg} {answer : Option ExecuteAnswer} (hR : c.Reaches)
    (ht : c.store.config.token ≠ none) (hn : Next c (.call view info msg, answer) c')
    (hdeposit : msg ≠ .deposit) (hm : marksOf c.store c.now msg.markLimit = [])
    (hfee : feeOf (.call view info msg, answer) = 0) :
    c.sureAssets * c'.supply.val ≤ c'.sureAssets * c.supply.val := by
  have hR' := hR.next hn
  have hB := hR.reachable.booked
  rcases step_ok hn with ⟨c₁, _, _, _, store, resp, hen, he, hr, rfl⟩ | ⟨-, ha⟩
  swap
  · cases ha
  have hM := hen.mirror hR.mirror
  cases hen with
  | call hs hb =>
    rename_i b
    have hreceive : ∀ s f a h, msg ≠ .receive s f a h := by
      rintro s f a h rfl
      exact hs (receive_isContract (c := { c with balance := b }) he)
    have hran := runs_ok hr
    have hstore : c'.store = store := hran.store
    -- the assets: what leaves is no longer set aside, and nothing goes out of sight
    have hworth : c'.worth + leavingBy c.self.address store.config.bondedDenom resp.messages =
        c.bonded + c.held + b.val := hran.worth
    have hunseen : c'.unseen ≤ c.unseen :=
      unseen_le (c := { c with balance := b }) (hstore ▸ hR'.nodup) (execute_told hB hR.housed he) hr
    obtain ⟨x, hx, hleaving⟩ := execute_leaving (c := { c with balance := b }) hB c.self.address
      store.config.bondedDenom hdeposit hreceive hm he
    have hx : store.reserved + x = c.store.reserved := hx
    -- the supply: nothing is minted or burned
    have hmint := call_minted (c := { c with balance := b }) hB ht hdeposit hfee he
    obtain ⟨-, hburn⟩ := execute_supply hB (hM.supply ▸ mirrorSupply_eq hM.supply view) he
    have hnone : msg.burns = 0 := by
      cases msg with
      | receive s f a h => exact absurd rfl (hreceive s f a h)
      | _ => rfl
    have hsupply : c'.supply.val + burnedBy resp.messages = c.supply.val + mintedBy resp.messages :=
      hran.supply
    refine sure_step_of_le ?_ (Word.ext (by omega))
    rw [sureAssets, sureAssets, worth, hstore]
    omega

/-- A delegation whose rewards have grown. -/
theorem sure_insert {v : String} {d d' : Stake} (hR : c.Reaches) (hR' : c'.Reaches)
    (hd : c.stakes.lookup v = some d) (ha : d'.amount = d.amount) (hle : d.rewards ≤ d'.rewards)
    (hc : c' = { c with stakes := c.stakes.insert v d' }) : c.sureAssets ≤ c'.sureAssets := by
  have hput : Put c v d' c' := put_insert (by rw [hc])
  have hstore : c'.store = c.store := by rw [hc]
  have hbalance : c'.balance = c.balance := by rw [hc]
  have hbonded := hput.bonded
  rw [stakeOf_eq hd, ha] at hbonded
  have hseen : c.seen ≤ c'.seen := by
    unfold seen
    rw [hstore]
    refine List.sum_le_sum fun x _ => ?_
    by_cases hx : x.address = v
    · have := Word.le_def.1 hle
      rw [hx, hput.at_v, stakeOf_eq hd]
      omega
    · rw [hput.off_v _ hx]
  have h1 := hR.seen_add_unseen
  have h2 := hR'.seen_add_unseen
  rw [sureAssets, sureAssets, worth, worth, hstore, hbalance]
  omega

/-- **What happens aside from calls**, slashes excepted. -/
theorem Aside.sure {e : ChainEvent} (h : Aside c e c') (hR : c.Reaches) (hR' : c'.Reaches)
    (hslash : ∀ v amount, amount ≠ 0 → e ≠ .slash v amount) :
    c.sureAssets ≤ c'.sureAssets ∧ c'.supply = c.supply := by
  cases h with
  | transfer hne hm =>
    obtain ⟨hT, hs, -⟩ := move_ok hm
    obtain ⟨hstake, hbonded, hheld⟩ := stakeOf_congr hT.stakes
    refine ⟨le_of_eq ?_, hs⟩
    rw [sureAssets, sureAssets, worth, worth, unseen, unseen, hT.store, hT.balance, hstake, hbonded, hheld]
  | migrate hm =>
    obtain ⟨rfl, -⟩ := migrate_ok hm
    exact ⟨Nat.le_refl _, rfl⟩
  | inflow hb =>
    rename_i amount b
    refine ⟨?_, rfl⟩
    show c.bonded + c.held + c.balance.val - c.unseen - c.store.reserved ≤
      c.bonded + c.held + b.val - c.unseen - c.store.reserved
    omega
  | accrue hs hr =>
    refine ⟨sure_insert hR hR' hs (by rfl) ?_ rfl, rfl⟩
    exact Word.le_def.2 (by dsimp only; omega)
  | slash hs ha =>
    rename_i v amount a s
    have hz : amount = 0 := by
      by_contra hne
      exact hslash v amount hne rfl
    rw [hz, Word.val_zero, Nat.add_zero] at ha
    exact ⟨sure_insert hR hR' hs (by exact Word.ext ha.symm) (by exact Nat.le_refl _) rfl, rfl⟩
  | time h => exact ⟨Nat.le_refl _, rfl⟩

/-- **What is sure of a share does not fall**, unless the event lowers it. -/
theorem sure_step {e : ChainEvent × Option ExecuteAnswer} (hR : c.Reaches)
    (ht : c.store.config.token ≠ none) (hn : Next c e c') (hk : ¬ Lowers c e) :
    c.sureAssets * c'.supply.val ≤ c'.sureAssets * c.supply.val := by
  obtain ⟨e, answer⟩ := e
  have hR' := hR.next hn
  have haside : (answer = none ∧ Aside c e c') →
      c.sureAssets * c'.supply.val ≤ c'.sureAssets * c.supply.val := by
    rintro ⟨-, ha⟩
    obtain ⟨hle, hs⟩ := ha.sure hR hR' fun v amount hne he => hk (.slash hne he)
    exact sure_step_of_le hle hs
  rcases step_ok hn with ⟨c₁, view, info, msg, store, resp, hen, he, hr, rfl⟩ | ha
  swap
  · exact haside ha
  cases hen with
  | call hs hb =>
    by_cases hdeposit : msg = .deposit
    · subst hdeposit
      exact sure_trade hR ht hn trivial (unseen_eq_zero (deposit_told he) hr)
    · exact sure_call hR ht hn hdeposit (not_not.1 fun hm => hk (.marking rfl hm))
        (not_not.1 fun hf => hk (.fee hf))
  | send hne htok hm => exact sure_trade hR ht hn trivial (unseen_eq_zero (receive_told he) hr)

/-! ## The rate -/

/-- **The rate that is reported** is read from the cache. -/
theorem queryState_rate {state : StateResponse} (hM : Mirror c) (hpos : 0 < c.supply.val)
    (h : queryState (c.deps view) c.env c.store = .ok state) :
    state.exchangeRate.val = c.cachedAssets * rateScale / c.supply.val := by
  unfold queryState at h
  simp only [bind_eq_ok, pure_eq_ok] at h
  obtain ⟨pool, hpool, rate, hrate, owed, -, rfl⟩ := h
  have hsupply : pool.supply = c.supply := by
    unfold poolTotals at hpool
    simp only [bind_eq_ok, pure_eq_ok] at hpool
    obtain ⟨_, -, _, -, rfl⟩ := hpool
    exact hM.supply
  have hne : pool.supply ≠ 0 := by
    intro hz
    rw [← hsupply, hz, Word.val_zero] at hpos
    exact Nat.lt_irrefl 0 hpos
  unfold exchangeRate at hrate
  rw [if_neg hne, bind_eq_ok] at hrate
  obtain ⟨a, ha, hrate⟩ := hrate
  rw [(mulDivFloor_eq_ok.1 hrate).2, (pool_assets hpool ha).1, hsupply]

theorem checkExchangeRate_last {formatRate : ℕ → String} {state : StateResponse}
    {memory : Keeper.Memory} : (Keeper.checkExchangeRate formatRate state memory).1.lastExchangeRate =
      some state.exchangeRate.val := by
  unfold Keeper.checkExchangeRate
  dsimp only
  split
  · rfl
  · split <;> rfl

/-- A rate that has not fallen is in order. -/
theorem checkExchangeRate_ok {formatRate : ℕ → String} {state : StateResponse} {memory : Keeper.Memory}
    {previous : ℕ} (hp : memory.lastExchangeRate = some previous)
    (hle : previous ≤ state.exchangeRate.val) :
    (Keeper.checkExchangeRate formatRate state memory).2.severity = .ok := by
  unfold Keeper.checkExchangeRate
  simp only [hp, if_pos hle]

/-- **Where a fall of the rate comes from.** Take two passes of the keeper, at any distance, once the
token is bound. If the rate that the second reads is below that of the first, the cache had overstated
a delegation or its rewards at the first; or in between there was a slash, or a claim or a collect that
marked a window, or a compound that minted a fee. -/
theorem rate_fall_explained {h : List (ChainEvent × Option ExecuteAnswer)} (hR : c.Reaches)
    (ht : c.store.config.token ≠ none) (hrun : Run Next c h c') {state state' : StateResponse}
    (hstate : queryState (c.deps view) c.env c.store = .ok state)
    (hstate' : queryState (c'.deps view') c'.env c'.store = .ok state') (formatRate : ℕ → String)
    (memory : Keeper.Memory)
    (hfell : (Keeper.checkExchangeRate formatRate state'
      (Keeper.checkExchangeRate formatRate state memory).1).2.severity ≠ .ok) :
    c.Overstated ∨ ∃ c₁ e c₂ h₁ h₂, h = h₂ ++ e :: h₁ ∧ Run Next c h₁ c₁ ∧ Next c₁ e c₂ ∧
      Run Next c₂ h₂ c' ∧ Lowers c₁ e := by
  rcases hrun.guarded_or fun c e => ¬ Lowers c e with hg | ⟨c₁, e, c₂, h₁, h₂, hh, h₁r, hn, h₂r, hk⟩
  swap
  · exact .inr ⟨c₁, e, c₂, h₁, h₂, hh, h₁r, hn, h₂r, not_not.1 hk⟩
  refine .inl ?_
  by_contra hstated
  refine hfell (checkExchangeRate_ok checkExchangeRate_last ?_)
  -- what is sure of a share has not fallen
  obtain ⟨hR', ht', hprice⟩ : c'.Reaches ∧ c'.store.config.token ≠ none ∧
      c.sureAssets * c'.supply.val ≤ c'.sureAssets * c.supply.val := by
    refine hg.inv (P := fun d => d.Reaches ∧ d.store.config.token ≠ none ∧
      c.sureAssets * d.supply.val ≤ d.sureAssets * c.supply.val) ⟨hR, ht, Nat.le_refl _⟩ ?_
    rintro d e d' ⟨hRd, htd, hle⟩ ⟨hn, hk⟩
    refine ⟨hRd.next hn, Next.bound hRd hn htd, ?_⟩
    exact @Vault.price_trans ⟨c.sureAssets, c.supply.val⟩ ⟨d.sureAssets, d.supply.val⟩
      ⟨d'.sureAssets, d'.supply.val⟩ (hRd.supply_pos htd) hle (sure_step hRd htd hn hk)
  have hpos : 0 < c.supply.val := hR.supply_pos ht
  have hpos' : 0 < c'.supply.val := hR'.supply_pos ht'
  rw [queryState_rate hR.mirror hpos hstate, queryState_rate hR'.mirror hpos' hstate',
    Nat.le_div_iff_mul_le hpos']
  -- the rate is the price of a share in a vault of its own
  refine @Vault.price_trans ⟨c.cachedAssets * rateScale / c.supply.val, rateScale⟩
    ⟨c.sureAssets, c.supply.val⟩ ⟨c'.cachedAssets, c'.supply.val⟩ hpos ?_ ?_
  · refine (Nat.div_mul_le_self _ _).trans ?_
    exact Nat.mul_le_mul_right _ (cached_le_sure hR hstated)
  · exact hprice.trans (Nat.mul_le_mul_right _ (sure_le_cached hR'))

set_option maxRecDepth 10000 in
/-- A validator earns, a sync counts what it has earned, and a compound mints the fee on it: the second
pass raises an alert, though nobody has been slashed and the cache was right. -/
theorem rate_fall_explained_fee : ∃ c c' h state state', Reaches c ∧ Run Next c h c' ∧
    queryState (c.deps (devView 0 [])) c.env c.store = .ok state ∧
    queryState (c'.deps (devView 0 [])) c'.env c'.store = .ok state' ∧
    (Keeper.checkExchangeRate toString state'
      (Keeper.checkExchangeRate toString state Keeper.Memory.fresh).1).2.severity = .alert ∧
    ¬ c.Overstated ∧ (c.Overstated ∨ ∃ c₁ e c₂ h₁ h₂, h = h₂ ++ e :: h₁ ∧ Run Next c h₁ c₁ ∧
      Next c₁ e c₂ ∧ Run Next c₂ h₂ c' ∧ Lowers c₁ e) := by
  have hrun : ((devChain.replay [devSeed, devEnter "user" (Uint128.new 100000000) .deposit,
        .accrue "validatortwo" (Uint128.new 5000000), devEnter "keeper" 0 (.sync none)]).bind fun s =>
      (s.1.replay [devEnter "keeper" 0 (.compound none)]).bind fun s' =>
        (queryState (s.1.deps (devView 0 [])) s.1.env s.1.store).toOption.bind fun state =>
          (queryState (s'.1.deps (devView 0 [])) s'.1.env s'.1.store).toOption.map fun state' =>
            (s.1.store.config.token.isSome, decide s.1.Overstated,
              (Keeper.checkExchangeRate toString state'
                (Keeper.checkExchangeRate toString state Keeper.Memory.fresh).1).2.severity)) =
      some (true, false, .alert) := by decide +kernel
  obtain ⟨⟨c, h₀⟩, hc, hrun⟩ := Option.bind_eq_some_iff.1 hrun
  obtain ⟨⟨c', h⟩, hc', hrun⟩ := Option.bind_eq_some_iff.1 hrun
  obtain ⟨state, hstate, hrun⟩ := Option.bind_eq_some_iff.1 hrun
  obtain ⟨state', hstate', hs⟩ := Option.map_eq_some_iff.1 hrun
  simp only [Prod.mk.injEq, decide_eq_false_iff_not] at hs
  obtain ⟨htoken, hstated, hseverity⟩ := hs
  have hR : c.Reaches := ⟨devChain, h₀, devChain_fresh, replay_ok hc⟩
  rw [toOption_eq_some] at hstate hstate'
  exact ⟨c, c', h, state, state', hR, replay_ok hc', hstate, hstate', hseverity, hstated,
    rate_fall_explained hR (Option.isSome_iff_ne_none.1 htoken) (replay_ok hc') hstate hstate' _ _
      (by rw [hseverity]; decide)⟩

end Chain

end LstCore
