import LstCore.Proof.InStep

/-!
# Which delegations a call changes

A `Delegate` goes where the placement rule puts it, the `Undelegate`s of a closing where its plan
draws, and a `Redelegate` where its step says. So the delegations that a call changes are known from
the chain it finds (`Chain.changes`), and are those it pays the rewards of, but for the page that a
compound withdraws from (`Chain.execute_paid`, `Chain.compound_paid`).
-/

namespace LstCore

open Lib

/-- Where an amount is delegated. -/
def placedWith (amount : Uint128) (set : List ValidatorEntry) : List String :=
  match placeStake amount set with
  | .ok (_, validator) => [validator]
  | .error _ => []

/-- Where an amount is undelegated from. -/
def drawnFor (owed : Uint128) (maxEntries : ℕ) (set : List ValidatorEntry) : List String :=
  if owed = 0 then []
  else
    match Validators.planUndelegation set owed maxEntries with
    | .ok legs => legs.filterMap fun leg => (set.map (·.address))[leg.index]?
    | .error _ => []

/-- Where a window is undelegated from that can be closed. -/
def drawnAt (now : ℕ) (w : UnbondWindow) (owed : Uint128) (maxEntries : ℕ)
    (set : List ValidatorEntry) : List String :=
  match Windows.assertClosable w now with
  | .ok () => drawnFor owed maxEntries set
  | .error _ => []

variable {deps : Deps} {env : Env} {info : MessageInfo} {st st' : Storage} {resp : Response}
  {set set' : List ValidatorEntry} {messages : List CosmosMsg}

theorem placeStake_placed {amount : Uint128} {validator : String}
    (h : placeStake amount set = .ok (set', validator)) : placedWith amount set = [validator] := by
  rw [placedWith, h]

/-! ## Closing -/

theorem issueLegs_paid {denom : String} : ∀ {legs : List Validators.UnbondLeg} {acc acc' : LegAcc},
    legs.foldlM (issueLeg denom) acc = .ok acc' →
    paidBy acc'.messages = paidBy acc.messages ++
      legs.filterMap fun leg => (acc.set.map (·.address))[leg.index]? := by
  intro legs
  induction legs with
  | nil =>
    intro acc acc' h
    simp only [List.foldlM_nil, pure_eq_ok] at h
    simp [h]
  | cons leg legs ih =>
    intro acc acc' h
    rw [List.foldlM_cons, bind_eq_ok] at h
    obtain ⟨mid, hmid, h⟩ := h
    obtain ⟨v, hv, rfl⟩ := issueLeg_eq_ok.1 hmid
    -- a leg leaves the addresses as they are
    have haddr : (acc.set.map (·.address))[leg.index]? = some v.address := by
      rw [List.getElem?_map, hv]
      rfl
    rw [ih h, map_set hv (by rfl), paidBy_append, List.filterMap_cons, haddr, List.append_assoc]
    rfl

/-- **A closing pays the rewards of those it draws on.** -/
theorem Undelegated.paid {w : UnbondWindow} {vs : List ValidatorEntry} {ts : TotalsCache}
    {used : List String} (h : Undelegated st w vs ts used messages) : paidBy messages =
      drawnFor w.scrtOwed st.config.params.maxUnbondEntriesPerValidator st.validators := by
  cases h with
  | nothing hz =>
    rw [drawnFor, if_pos hz]
    rfl
  | issued hz hplan hissue hou =>
    rw [drawnFor, if_neg hz, hplan, issueLegs_paid hissue]
    rfl

theorem closing_paid {closing : Closing} {w : UnbondWindow}
    (hw : st.windows.lookup st.openWindow = some w)
    (hcl : Windows.assertClosable w env.time = .ok ())
    (h : closeOpenWindow env st = .ok (st', closing)) : paidBy closing.messages =
      drawnAt env.time w w.scrtOwed st.config.params.maxUnbondEntriesPerValidator st.validators := by
  obtain ⟨hopen, hdue⟩ := assertClosable_eq_ok.1 hcl
  obtain ⟨used, hund, -⟩ := closeOpenWindow_ok hw hopen hdue h
  rw [hund.paid, drawnAt, hcl]

/-- A closing that is given up, for want of a plan, draws on nobody. -/
theorem overdue_paid {closing : List CosmosMsg}
    (h : closeWindowIfOverdue env st = .ok (st', closing)) :
    ∃ w, st.windows.lookup st.openWindow = some w ∧ paidBy closing =
      drawnAt env.time w w.scrtOwed st.config.params.maxUnbondEntriesPerValidator st.validators := by
  unfold closeWindowIfOverdue at h
  rw [bind_eq_ok] at h
  obtain ⟨w, hw, h⟩ := h
  rw [loadWindow_eq_ok] at hw
  refine ⟨w, hw, ?_⟩
  cases hcl : Windows.assertClosable w env.time with
  | error e =>
    simp only [hcl, pure_eq_ok, Prod.mk.injEq] at h
    rw [← h.2, drawnAt, hcl]
    rfl
  | ok =>
    simp only [hcl] at h
    split at h
    · cases h
    · rename_i e hplan
      simp only [pure_eq_ok, Prod.mk.injEq] at h
      rw [← h.2, drawnAt, hcl, drawnFor]
      split at hplan
      · cases hplan
      · rename_i hz
        simp only [if_neg hz, hplan]
        rfl
    · simp only [bind_eq_ok, Prod.exists, pure_eq_ok, Prod.mk.injEq] at h
      obtain ⟨st₂, closing, hc, rfl, rfl⟩ := h
      exact closing_paid hw hcl hc

/-! ## Redelegating -/

theorem rebalance_paid {allowlist : List String} {denom : String} :
    ∀ {plan : List RedelegateStep} {acc acc' : RebalanceAcc},
      plan.foldlM (rebalanceStep allowlist denom) acc = .ok acc' →
      paidBy acc'.messages = paidBy acc.messages ++
        plan.flatMap fun step => [step.srcValidator, step.dstValidator] := by
  intro plan
  induction plan with
  | nil =>
    intro acc acc' h
    simp only [List.foldlM_nil, pure_eq_ok] at h
    simp [h]
  | cons step plan ih =>
    intro acc acc' h
    rw [List.foldlM_cons, bind_eq_ok] at h
    obtain ⟨mid, hmid, h⟩ := h
    rw [ih h, (rebalanceStep_ok hmid).2.2.2, paidBy_append, List.flatMap_cons, List.append_assoc]
    rfl

namespace Chain

variable {c c' : Chain} {view : Deps} {store : Storage}

/-! ## The delegations a call changes -/

/-- An entry as a compound re-reads it: the stake of a delegation that is gone is left as cached. -/
def reap (c : Chain) (v : ValidatorEntry) : ValidatorEntry :=
  { v with
    bonded := ((c.stakes.lookup v.address).map (·.amount)).getD v.bonded
    pendingRewards := 0 }

/-- Where the open window is undelegated from, closed on `set` and owing `joined` more. -/
def drawn (c : Chain) (joined : ℕ) (set : List ValidatorEntry) : List String :=
  match c.store.windows.lookup c.store.openWindow with
  | none => []
  | some w =>
    match (Word.ofNat? 128 (w.scrtOwed.val + joined) : Option Uint128) with
    | some owed => drawnAt c.now w owed c.store.config.params.maxUnbondEntriesPerValidator set
    | none => []

/-- Where the rewards of a page are restaked. -/
def restakedWith (c : Chain) (stop : ℕ) : List String :=
  let page := pageOf c.store.syncCursor stop c.store.validators
  match (Word.ofNat? 128 (page.map fun v => (c.stakeOf v.address).rewards.val).sum : Option Uint128) with
  | some harvested =>
    if harvested = 0 then []
    else placedWith harvested (withPage c.store.syncCursor stop c.store.validators (page.map c.reap))
  | none => []

/-- **The delegations that a call changes**, besides those whose rewards it withdraws. -/
def changes (c : Chain) (info : MessageInfo) : ExecuteMsg → List String
  | .bootstrap _ _ =>
    match exactFunds info c.store.config.bondedDenom with
    | .ok seed => placedWith seed c.store.validators
    | .error _ => []
  | .deposit =>
    match exactFunds info c.store.config.bondedDenom with
    | .ok deposit =>
      match placeStake deposit (c.store.validators.map c.read) with
      | .ok (set, validator) => validator :: c.drawn 0 set
      | .error _ => []
    | .error _ => []
  | .receive _ _ amount _ =>
    c.drawn (amount.val * c.assets / c.supply.val) (c.store.validators.map c.read)
  | .advanceWindow => c.drawn 0 c.store.validators
  | .compound limit =>
    match pageEnd c.store.syncCursor (limit.getD defaultCompoundLimit) c.store.validators with
    | .ok stop =>
      (c.restakedWith stop).filter fun v =>
        v ∉ (pageOf c.store.syncCursor stop c.store.validators).map (·.address)
    | .error _ => []
  | .manager (.rebalance plan) => plan.flatMap fun step => [step.srcValidator, step.dstValidator]
  | _ => []

theorem drawn_eq {w : UnbondWindow} {owed : Uint128} {joined : ℕ}
    (hw : c.store.windows.lookup c.store.openWindow = some w)
    (ho : owed.val = w.scrtOwed.val + joined) : c.drawn joined set =
      drawnAt c.now w owed c.store.config.params.maxUnbondEntriesPerValidator set := by
  have hval : (Word.ofNat? 128 (w.scrtOwed.val + joined) : Option Uint128) = some owed :=
    Word.ofNat?_eq_some.2 ho
  rw [drawn, hw]
  simp only [hval]

/-- **What a call changes, it pays the rewards of**, and nothing else. -/
theorem execute_paid {msg : ExecuteMsg} (hM : Mirror c) (hB : Booked c.store)
    (hne : ∀ limit, msg ≠ .compound limit)
    (h : execute (c.deps view) c.env info msg c.store = .ok (store, resp)) :
    paidBy resp.messages = c.changes info msg := by
  cases msg with
  | bootstrap addr hash =>
    obtain ⟨s, -, hm⟩ := executeBootstrap_ok h
    rw [hm]
    simp only [changes, s.funded, placeStake_placed s.placed]
    rfl
  | deposit =>
    obtain ⟨st₁, deposit, shares, messages, closing, ha, hc, hm⟩ := executeDeposit_ok h
    obtain ⟨d, rfl, rfl⟩ := acceptDeposit_ok ha
    obtain ⟨w, hw, hp⟩ := overdue_paid hc
    have hw : c.store.windows.lookup c.store.openWindow = some w := by
      show c.store.queue.windows.lookup c.store.queue.openWindow = some w
      rw [← d.still.queue]
      exact hw
    have hplaced := d.placed
    rw [refreshed_set d.refreshed] at hplaced
    rw [d.still.ceiling] at hp
    rw [hm, paidBy_append, hp]
    simp only [changes, d.funded, hplaced, drawn_eq hw (Nat.add_zero _).symm]
    rfl
  | receive sender fromAddr amount hook =>
    obtain ⟨st₁, w', owed, token, closing, ha, hc, hm⟩ := executeReceive_ok h
    obtain ⟨st₀, -, -, -, -, hprice, hj⟩ := requestWithdrawal_ok ha
    obtain ⟨v, oo, -, hstep, -, hst₁⟩ := joinWindow_ok hj
    obtain ⟨w, hw, hp⟩ := overdue_paid hc
    obtain ⟨pool, hpool, -⟩ := priceWithdrawal_eq_ok.1 hprice
    have hrefresh := (pricingPool_eq_ok.1 hpool).1
    have hstill := (refreshTotals_still hrefresh).1
    -- the window that may be closed is the open one, joined
    obtain ⟨w₀, sb, so, hw₀, -, hso, hopen, hwin⟩ := hstep.join_windows
    rw [hstill.queue] at hw₀ hopen hwin
    have hjoined : w = w₀.joined sb so := by
      have hw : st₁.queue.windows.lookup st₁.queue.openWindow = some w := hw
      rw [hopen, hwin, AList.lookup_insert] at hw
      exact (Option.some.inj hw).symm
    rw [withdrawal_owed hM hprice] at hso
    rw [hm, paidBy_cons, hp, hjoined]
    simp only [changes, drawn_eq (w := w₀) hw₀ hso]
    have hset : st₁.validators = c.store.validators.map c.read := by
      rw [← refreshed_set hrefresh, hst₁]
    have hceiling : st₁.config.params.maxUnbondEntriesPerValidator =
        c.store.config.params.maxUnbondEntriesPerValidator := by rw [← hstill.ceiling, hst₁]
    rw [hset, hceiling]
    rfl
  | claimMatured windowIds =>
    obtain ⟨_, _, _, _, _, -, -, -, -, -, hm⟩ := executeClaimMatured_ok hB h
    rw [hm]
    rfl
  | compound limit => exact absurd rfl (hne limit)
  | advanceWindow =>
    obtain ⟨w, closing, hw, hopen, hdue, hc, hm⟩ := executeAdvanceWindow_ok h
    rw [hm, closing_paid hw (assertClosable_eq_ok.2 ⟨hopen, hdue⟩) hc]
    exact (drawn_eq hw rfl).symm
  | collectMatured limit =>
    obtain ⟨ids, -, hm⟩ := executeCollectMatured_ok h
    rw [hm]
    rfl
  | sync limit =>
    obtain ⟨s, -, hm, -⟩ := executeSync_ok h
    rw [hm]
    rfl
  | manager m =>
    rcases executeManager_ok h with
      ⟨_, rfl, -, -, hm⟩ | ⟨_, rfl, -, -, hm⟩ | ⟨_, acc, rfl, hacc, -, hm⟩
    · rw [hm]
      rfl
    · rw [hm]
      rfl
    · rw [hm, rebalance_paid hacc]
      rfl
  | setPaused paused =>
    obtain ⟨-, hm⟩ := executeSetPaused_ok h
    rw [hm]
    rfl

/-! ## Compounding -/

theorem harvestEntry_eq (view : Deps) : harvestEntry (c.deps view) c.self.address = c.reap := by
  funext v
  unfold harvestEntry reap
  rw [delegationOf_eq]
  cases c.stakes.lookup v.address <;> rfl

/-- The validators of a page that have rewards. -/
def rewarded (c : Chain) (page : List ValidatorEntry) : List String :=
  (page.filter fun v => (c.stakeOf v.address).rewards ≠ 0).map (·.address)

theorem withdrawals_paid (page : List ValidatorEntry) :
    paidBy (withdrawals (c.deps view) c.self.address c.store.config.bondedDenom page) =
      c.rewarded page := by
  unfold paidBy withdrawals rewarded
  simp only [rewardsAt_eq]
  rw [List.flatMap_map]
  exact (List.map_eq_flatMap ..).symm

/-- **A compound pays the rewards of its page**, and those that come with what it restakes. -/
theorem compound_paid {limit : Option ℕ}
    (h : executeCompound (c.deps view) c.env limit c.store = .ok (store, resp)) :
    ∃ stop harvested fee processed done,
      pageEnd c.store.syncCursor (limit.getD defaultCompoundLimit) c.store.validators = .ok stop ∧
      resp.data = some (.compound harvested fee processed done) ∧
      harvested.val = ((pageOf c.store.syncCursor stop c.store.validators).map
        fun v => (c.stakeOf v.address).rewards.val).sum ∧
      paidBy resp.messages = c.rewarded (pageOf c.store.syncCursor stop c.store.validators) ++
        c.restakedWith stop := by
  obtain ⟨k, -, hm, hd⟩ := executeCompound_ok h
  have hval : k.harvested.val = ((pageOf c.store.syncCursor k.stop c.store.validators).map
      fun v => (c.stakeOf v.address).rewards.val).sum := by
    rw [k.harvested_val]
    show rewardsOf (c.deps view) c.self.address _ _ = _
    simp only [rewardsOf, rewardsAt_eq]
  refine ⟨k.stop, k.harvested, _, _, _, k.stop_eq, hd, hval, ?_⟩
  rw [hm, Compounded.messages, paidBy_append]
  refine congrArg₂ (· ++ ·) (withdrawals_paid _) ?_
  have hof : (Word.ofNat? 128 ((pageOf c.store.syncCursor k.stop c.store.validators).map
      fun v => (c.stakeOf v.address).rewards.val).sum : Option Uint128) = some k.harvested :=
    Word.ofNat?_eq_some.2 hval
  simp only [restakedWith, hof]
  rcases restake_ok k.restake_eq with ⟨hz, -, hnil, -⟩ | ⟨hz, _, validator, fee, -, hplace, -, hf, hmsg⟩
  · rw [if_pos hz, hnil]
    rfl
  · have hset : harvestedSet (c.deps view) c.env c.store k.stop = withPage c.store.syncCursor k.stop
        c.store.validators ((pageOf c.store.syncCursor k.stop c.store.validators).map c.reap) := by
      rw [← harvestEntry_eq view]
      rfl
    rw [if_neg hz, ← hset, placeStake_placed hplace, hmsg, paidBy_cons]
    rcases feeMessages_ok hf with rfl | ⟨_, _, rfl⟩
    · rfl
    · rfl

end Chain

end LstCore
