import LstCore.Proof.Posts
import LstCore.Proof.Pricing
import LstCore.Proof.Supply

/-!
# The pool on its chain

* `Chain.assets`: what backs the pool, read off the chain; `pricing_pool`: it is what prices are
  read from.
* `Reaches.housed`: the contract delegates to validators of the set alone, so the assets are
  everything it holds, less what is owed (`assets_eq`).
* `Undelegated.leaving`, `closing_reserved`, `overdue_reserved`: a closing takes as much out of
  what is held as out of what is owed.
-/

namespace LstCore

open Lib

variable {deps : Deps} {env : Env} {info : MessageInfo} {st st' : Storage} {resp : Response}
  {set set' : List ValidatorEntry} {messages : List CosmosMsg}

/-! ## Where messages delegate to -/

/-- What messages add to delegations goes to validators of the set. -/
def Within (set : List ValidatorEntry) (messages : List CosmosMsg) : Prop :=
  ∀ m ∈ messages, ∀ v ∈ m.target, v ∈ set.map (·.address)

theorem within_nil : Within set [] := fun _ hm => absurd hm List.not_mem_nil

theorem within_cons {m : CosmosMsg} :
    Within set (m :: messages) ↔ (∀ v ∈ m.target, v ∈ set.map (·.address)) ∧ Within set messages :=
  List.forall_mem_cons

/-- A message that adds to no delegation. -/
theorem Within.cons {m : CosmosMsg} (h : Within set messages) (hm : m.target = none) :
    Within set (m :: messages) := by
  refine within_cons.2 ⟨fun v hv => ?_, h⟩
  rw [hm] at hv
  cases hv

theorem within_append {l : List CosmosMsg} :
    Within set (messages ++ l) ↔ Within set messages ∧ Within set l := List.forall_mem_append

theorem Within.congr (h : Within set messages)
    (ha : set'.map (·.address) = set.map (·.address)) : Within set' messages :=
  fun m hm v hv => ha ▸ h m hm v hv

theorem within_of_none (h : ∀ m ∈ messages, m.target = none) : Within set messages := by
  intro m hm v hv
  rw [h m hm] at hv
  cases hv

theorem fixed_address : Fixed (·.address) := fun _ _ _ _ => rfl

theorem placeStake_mem {amount : Uint128} {validator : String}
    (h : placeStake amount set = .ok (set', validator)) : validator ∈ set'.map (·.address) := by
  rw [map_placeStake (fun _ _ => rfl) h]
  obtain ⟨i, v, b, -, hv, -, -, rfl⟩ := placeStake_eq_ok.1 h
  exact List.mem_map_of_mem (List.mem_of_getElem? hv)

theorem deposited_within {deposit shares : Uint128} (d : Deposited deps env info st deposit shares) :
    Within d.set d.messages := by
  refine Within.cons (within_cons.2 ⟨?_, within_nil⟩) rfl
  rintro _ ⟨⟩
  exact placeStake_mem d.placed

/-- A closing delegates nothing. -/
theorem Undelegated.within {w : UnbondWindow} {vs : List ValidatorEntry} {ts : TotalsCache}
    {used : List String} (h : Undelegated st w vs ts used messages) : Within set messages :=
  within_of_none fun m hm => by
    obtain ⟨_, _, rfl⟩ := h.messages_mem m hm
    rfl

theorem overdue_within {closing : List CosmosMsg}
    (h : closeWindowIfOverdue env st = .ok (st', closing)) : Within set closing := by
  rcases closeWindowIfOverdue_ok h with ⟨-, rfl⟩ | ⟨w, closing, hw, hopen, hdue, hc, rfl⟩
  · exact within_nil
  · obtain ⟨used, hund, -⟩ := closeOpenWindow_ok hw hopen hdue hc
    exact hund.within

theorem positionOf_mem {address : String} {i : ℕ} (h : positionOf set address = .ok i) :
    address ∈ set.map (·.address) := by
  unfold positionOf at h
  rw [orErr_eq_ok, List.findIdx?_eq_some_iff_getElem] at h
  obtain ⟨hi, ha, -⟩ := h
  exact List.mem_map.2 ⟨set[i], List.getElem_mem hi, by simpa using ha⟩

/-- A plan moves stake to validators of the set. -/
theorem rebalance_within {allowlist : List String} {denom : String} {plan : List RedelegateStep}
    {acc : RebalanceAcc} (h : plan.foldlM (rebalanceStep allowlist denom) ⟨set, []⟩ = .ok acc) :
    Within acc.set acc.messages := by
  refine foldlM_inv (f := rebalanceStep allowlist denom)
    (fun _ a => Within a.set a.messages) ?_ _ _ _ within_nil h
  intro step rest a a' ha hstep
  obtain ⟨hsrc, hv, hb, hdst, hu, hb'⟩ := rebalanceStep_redelegated hstep
  rename_i src dst v u b b'
  have h₁ := map_set hv (fixed_address.bonded v b)
  have h₂ := map_set hu (fixed_address.bonded u b')
  refine within_append.2 ⟨ha.congr (h₂.trans h₁), within_cons.2 ⟨?_, within_nil⟩⟩
  rintro _ ⟨⟩
  rw [h₂]
  exact positionOf_mem hdst

theorem restake_within {pool : PoolTotals} {harvested fee : Uint128}
    (h : restake st pool set harvested = .ok (set', messages, fee)) : Within set' messages := by
  rcases restake_ok h with ⟨-, -, rfl, -⟩ | ⟨-, _, validator, feeMsgs, -, hplace, -, hfee, rfl⟩
  · exact within_nil
  · refine within_cons.2 ⟨?_, ?_⟩
    · rintro _ ⟨⟩
      exact placeStake_mem hplace
    · rcases feeMessages_ok hfee with rfl | ⟨_, _, rfl⟩
      · exact within_nil
      · exact within_of_none fun m hm => by rw [List.mem_singleton.1 hm]; rfl

/-- **A call delegates to validators of the set it leaves**, which has all those of the set it
finds. -/
theorem execute_within {msg : ExecuteMsg} (hB : Booked st)
    (h : execute deps env info msg st = .ok (st', resp)) :
    (∀ a ∈ st.validators.map (·.address), a ∈ st'.validators.map (·.address)) ∧
      Within st'.validators resp.messages := by
  have keeps : ∀ {st' : Storage}, st'.validators.map (·.address) = st.validators.map (·.address) →
      ∀ a ∈ st.validators.map (·.address), a ∈ st'.validators.map (·.address) := by
    intro st' he a ha
    rwa [he]
  cases msg with
  | deposit =>
    refine ⟨keeps ((execute_unmoved hB rfl h).column fixed_address), ?_⟩
    obtain ⟨st₁, _, _, _, closing, ha, hc, hm⟩ := executeDeposit_ok h
    obtain ⟨d, rfl, rfl⟩ := acceptDeposit_ok ha
    rw [hm]
    exact within_append.2
      ⟨(deposited_within d).congr ((Unmoved.overdue hc).column fixed_address), overdue_within hc⟩
  | receive sender fromAddr amount hook =>
    refine ⟨keeps ((execute_unmoved hB rfl h).column fixed_address), ?_⟩
    obtain ⟨st₁, _, _, _, closing, -, hc, hm⟩ := executeReceive_ok h
    rw [hm]
    exact (overdue_within hc).cons rfl
  | claimMatured windowIds =>
    refine ⟨keeps ((execute_unmoved hB rfl h).column fixed_address), ?_⟩
    obtain ⟨_, _, _, _, _, -, -, -, -, -, hm⟩ := executeClaimMatured_ok hB h
    rw [hm]
    exact within_nil.cons rfl
  | compound limit =>
    obtain ⟨c, rfl, hm, -⟩ := executeCompound_ok h
    refine ⟨keeps (c.map_next fixed_address), ?_⟩
    rw [hm]
    refine within_append.2 ⟨within_of_none fun m hm => ?_, restake_within c.restake_eq⟩
    obtain ⟨v, -, rfl⟩ := List.mem_map.1 hm
    rfl
  | advanceWindow =>
    refine ⟨keeps ((execute_unmoved hB rfl h).column fixed_address), ?_⟩
    obtain ⟨w, closing, hw, hopen, hdue, hc, hm⟩ := executeAdvanceWindow_ok h
    obtain ⟨used, hund, -⟩ := closeOpenWindow_ok hw hopen hdue hc
    exact hm ▸ hund.within
  | collectMatured limit =>
    refine ⟨keeps ((execute_unmoved hB rfl h).column fixed_address), ?_⟩
    obtain ⟨ids, -, hm⟩ := executeCollectMatured_ok h
    rw [hm]
    exact within_nil
  | sync limit =>
    obtain ⟨s, rfl, hm, -⟩ := executeSync_ok h
    refine ⟨keeps (s.map_next fixed_address), ?_⟩
    rw [hm]
    exact within_nil
  | manager m =>
    -- new weights only append to the set
    obtain ⟨new, hslots, -⟩ := executeManager_slots h
    refine ⟨fun a ha => ?_, ?_⟩
    · rw [← addresses_eq] at ha ⊢
      rw [addresses, hslots, List.map_append]
      exact List.mem_append_left _ ha
    · rcases executeManager_ok h with
        ⟨_, -, -, rfl, hm⟩ | ⟨_, -, -, rfl, hm⟩ | ⟨_, acc, -, hacc, rfl, hm⟩
      · exact hm ▸ within_nil
      · exact hm ▸ within_nil
      · exact hm ▸ rebalance_within hacc
  | setPaused paused =>
    obtain ⟨rfl, hm⟩ := executeSetPaused_ok h
    rw [hm]
    exact ⟨fun _ => id, within_nil⟩
  | bootstrap addr hash =>
    obtain ⟨s, rfl, hm⟩ := executeBootstrap_ok h
    rw [hm]
    refine ⟨keeps (map_placeStake (fun _ _ => rfl) s.placed), ?_⟩
    refine Within.cons (Within.cons (within_cons.2 ⟨?_, within_nil⟩) rfl) rfl
    rintro _ ⟨⟩
    exact placeStake_mem s.placed

/-! ## What a closing takes -/

/-- What messages take out of what the contract holds. -/
def leavingBy (self : Addr) (denom : String) (messages : List CosmosMsg) : ℕ :=
  (messages.map (·.leaving self denom)).sum

@[simp] theorem leavingBy_nil (self : Addr) (denom : String) : leavingBy self denom [] = 0 := rfl

@[simp] theorem leavingBy_cons (self : Addr) (denom : String) (m : CosmosMsg) :
    leavingBy self denom (m :: messages) = m.leaving self denom + leavingBy self denom messages := by
  simp [leavingBy]

@[simp] theorem leavingBy_append (self : Addr) (denom : String) (l : List CosmosMsg) :
    leavingBy self denom (messages ++ l) = leavingBy self denom messages + leavingBy self denom l := by
  simp [leavingBy]

/-- What the open window and the matured ones are owed. -/
def Storage.reserved (st : Storage) : ℕ :=
  st.totals.scrtOwedOpen.val + st.totals.scrtOwedMatured.val

/-- **A closing undelegates what its window owes.** -/
theorem Undelegated.leaving {w : UnbondWindow} {vs : List ValidatorEntry} {ts : TotalsCache}
    {used : List String} (h : Undelegated st w vs ts used messages) (self : Addr) (denom : String) :
    leavingBy self denom messages = w.scrtOwed.val := by
  cases h with
  | nothing hz => rw [hz]; rfl
  | issued hz hplan hissue hou =>
    obtain ⟨-, hsum⟩ := Validators.planUndelegation_ok hplan
    have := foldlM_inv (f := issueLeg st.config.bondedDenom)
      (fun legs acc => leavingBy self denom acc.messages + (legs.map (·.amount.val)).sum =
        w.scrtOwed.val) ?_ _ _ _ (by simpa using hsum) hissue
    · simpa using this
    intro leg rest acc acc' hacc hstep
    obtain ⟨v, -, rfl⟩ := issueLeg_eq_ok.1 hstep
    simp only [leavingBy_append, leavingBy_cons, leavingBy_nil, CosmosMsg.leaving, List.map_cons,
      List.sum_cons] at hacc ⊢
    omega

/-- **A closing takes as much out of what is held as out of what is owed.** -/
theorem closing_reserved {closing : Closing} {w : UnbondWindow} (hB : Booked st)
    (hw : st.windows.lookup st.openWindow = some w) (hopen : w.state = .open)
    (hdue : w.closesAt ≤ env.time) (h : closeOpenWindow env st = .ok (st', closing)) (self : Addr)
    (denom : String) : st'.reserved + leavingBy self denom closing.messages = st.reserved := by
  obtain ⟨used, hund, -⟩ := closeOpenWindow_ok hw hopen hdue h
  rw [hund.leaving]
  have how := hB.open_owed hw
  unfold Storage.reserved
  generalize hts : st'.totals = ts at hund ⊢
  generalize st'.validators = vs at hund
  generalize closing.messages = messages at hund
  cases hund with
  | nothing hz => rw [hz]; rfl
  | issued hz hplan hissue hou =>
    simp only [Word.val_satSub]
    omega

theorem overdue_reserved {closing : List CosmosMsg} (hB : Booked st)
    (h : closeWindowIfOverdue env st = .ok (st', closing)) (self : Addr) (denom : String) :
    st'.reserved + leavingBy self denom closing = st.reserved := by
  rcases closeWindowIfOverdue_ok h with ⟨rfl, rfl⟩ | ⟨w, closing, hw, hopen, hdue, hc, rfl⟩
  · rfl
  · exact closing_reserved hB hw hopen hdue hc self denom

namespace Chain

variable {c c' c₁ : Chain} {view : Deps}

/-! ## Delegations and the set -/

/-- Every delegation is to a validator of the set. -/
def Housed (c : Chain) : Prop := ∀ v ∈ c.stakes, v ∈ c.store.validators.map (·.address)

theorem Entered.stakes_eq {e : ChainEvent} {msg : ExecuteMsg} (h : Entered c e c₁ view info msg) :
    c₁.stakes = c.stakes := by
  cases h with
  | call => rfl
  | send _ _ hm => exact (move_ok hm).1.stakes

/-- Messages that delegate to validators of the set keep it so. -/
theorem Housed.runs {store : Storage} (h : Housed c)
    (hsub : ∀ a ∈ c.store.validators.map (·.address), a ∈ store.validators.map (·.address))
    (hin : Within store.validators messages)
    (hr : messages.foldlM run { c with store := store } = some c') : Housed c' := by
  have hran := runs_ok hr
  intro v hv
  rw [hran.store]
  rcases hran.known v hv with hv | ⟨m, hm, ht⟩
  · exact hsub v (h v hv)
  · exact hin m hm v ht

/-- **The contract delegates to validators of its set alone.** -/
theorem Reaches.housed (h : c.Reaches) : Housed c := by
  refine h.inv (fun c hf v hv => ?_) ?_
  · rw [hf.1] at hv
    exact absurd hv (AList.notMem_empty v)
  rintro c ⟨e, answer⟩ c' hR ih hn
  rcases step_ok hn with ⟨c₁, view, info, msg, store, resp, hen, he, hr, -⟩ | ⟨-, ha⟩
  · obtain ⟨hsub, hin⟩ := execute_within (hen.store_eq ▸ hR.reachable.booked) he
    refine Housed.runs (c := c₁) (fun v hv => ?_) hsub hin hr
    rw [hen.stakes_eq] at hv
    rw [hen.store_eq]
    exact ih v hv
  · cases ha with
    | transfer hne hm =>
      obtain ⟨hT, -⟩ := move_ok hm
      intro v hv
      rw [hT.stakes] at hv
      rw [hT.store]
      exact ih v hv
    | migrate hm =>
      obtain ⟨rfl, -⟩ := migrate_ok hm
      exact ih
    | inflow | time => exact ih
    | accrue hs hr =>
      intro v hv
      rcases (AList.mem_insert _).1 hv with rfl | hv
      · exact ih _ (mem_stakes hs)
      · exact ih v hv
    | slash hs ha =>
      intro v hv
      rcases (AList.mem_insert _).1 hv with rfl | hv
      · exact ih _ (mem_stakes hs)
      · exact ih v hv

/-! ## The pool -/

/-- An entry as the chain has it. -/
def read (c : Chain) (v : ValidatorEntry) : ValidatorEntry :=
  { v with
    bonded := (c.stakeOf v.address).amount
    pendingRewards := (c.stakeOf v.address).rewards }

/-- What the chain has of the pool: what is staked with the set, its rewards, and the balance. -/
def backing (c : Chain) : ℕ :=
  total (·.bonded) (c.store.validators.map c.read) +
    total (·.pendingRewards) (c.store.validators.map c.read) + c.balance.val

/-- **The assets of the pool**: what backs it, less what the open and the matured windows are
owed. -/
def assets (c : Chain) : ℕ := c.backing - c.store.reserved

theorem delegationOf_eq (view : Deps) (v : String) :
    delegationOf (c.deps view) c.self.address v = (c.stakes.lookup v).map c.report := by
  simp [delegationOf, deps]

theorem rewardsAt_eq (view : Deps) (v : String) :
    rewardsAt (c.deps view) c.self.address c.store.config.bondedDenom v = (c.stakeOf v).rewards := by
  unfold rewardsAt stakeOf
  rw [delegationOf_eq]
  cases c.stakes.lookup v with
  | none => rfl
  | some s => simp [report, FullDelegation.rewardsIn]

theorem readEntry_eq (view : Deps) :
    readEntry (c.deps view) c.self.address c.store.config.bondedDenom = c.read := by
  funext v
  unfold readEntry read stakeAt
  rw [delegationOf_eq, rewardsAt_eq]
  unfold stakeOf
  cases c.stakes.lookup v.address <;> rfl

/-- **What backs the pool is everything the contract holds.** -/
theorem Housed.backing_eq (h : Housed c) (hnd : (c.store.validators.map (·.address)).Nodup) :
    c.backing = c.worth := by
  have hsum : ∀ f : Stake → ℕ, f ⟨0, 0⟩ = 0 → c.stakes.total (fun _ s => f s) =
      (c.store.validators.map fun v => f (c.stakeOf v.address)).sum := by
    intro f hf
    rw [Keymap.total_eq_sum (f := fun _ s => f s) hnd fun v s hs _ => h v (mem_stakes hs),
      List.map_map]
    exact congrArg List.sum (List.map_congr_left fun v _ => stakeOf_elim f hf)
  unfold backing worth bonded held total
  rw [hsum (·.amount.val) rfl, hsum (·.rewards.val) rfl, List.map_map, List.map_map]
  rfl

theorem Reaches.backing_eq (h : c.Reaches) : c.backing = c.worth :=
  h.housed.backing_eq (by rw [← addresses_eq]; exact h.reachable.slotted.distinct)

/-- **What a price is read from.** -/
theorem pricing_pool {exclude : Uint128} {pool : PoolTotals} (hM : Mirror c)
    (h : pricingPool (c.deps view) c.env exclude c.store = .ok (st', pool)) :
    pool.net = total (·.bonded) (c.store.validators.map c.read) +
      total (·.pendingRewards) (c.store.validators.map c.read) +
      (c.balance.val - exclude.val) - c.store.reserved ∧ pool.supply = c.supply := by
  obtain ⟨tb, pr, ts, balance, ob, hB, hb, hob, rfl⟩ := pricingPool_backing.1 ⟨st', h⟩
  have hbal : balance = c.balance := by
    simp only [deps, env, and_self, if_true, Except.ok.injEq] at hb
    exact hb.symm
  have hs := hB.supply
  rw [mirrorSupply_eq hM.supply, Except.ok.injEq] at hs
  have h1 := hB.bonded
  have h2 := hB.pending
  rw [show c.env.contract.address = c.self.address from rfl, readEntry_eq] at h1 h2
  refine ⟨?_, hs.symm⟩
  simp only [PoolTotals.net, Word.val_satSub]
  rw [h1, h2, hbal, hob]
  rfl

/-- **What a request is owed**: its part of the assets. -/
theorem withdrawal_owed {amount owed : Uint128} (hM : Mirror c)
    (h : priceWithdrawal (c.deps view) c.env amount c.store = .ok (st', owed)) :
    owed.val = amount.val * c.assets / c.supply.val := by
  obtain ⟨pool, hpool, howed⟩ := priceWithdrawal_eq_ok.1 h
  obtain ⟨hnet, hps⟩ := pricing_pool hM hpool
  rw [Word.val_zero, Nat.sub_zero] at hnet
  rw [assetsForShares_val howed, hps, hnet]
  split
  · rename_i hz
    rw [hz, Word.val_zero, Nat.div_zero]
  · rfl

/-- **The set a price is read with**: every entry as the chain has it. -/
theorem refreshed_set (h : refreshTotals (c.deps view) c.env c.store = .ok st') :
    st'.validators = c.store.validators.map c.read := by
  obtain ⟨-, -, _, _, _, -, -, -, rfl⟩ := refreshTotals_eq_ok.1 h
  rw [← readEntry_eq view]
  rfl

end Chain

end LstCore
