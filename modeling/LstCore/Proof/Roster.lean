import LstCore.Proof.Slots

/-!
# The roster and the cursor

Who is in the set, in which place, at which weight and in which status, is for the manager to
change, and where the next page starts is for a sync and a compound.

* `Unmoved`: the cursor, and every column that counts no stake, rewards or entries, are as they were.
* `execute_unmoved`: so they are across every other call; `execute_steady`: for the roster.
* `Synced.map_next`, `Compounded.map_next`, `executeManager_unmoved`: what these calls leave of the
  columns.
-/

namespace LstCore

open Lib

variable {deps : Deps} {env : Env} {info : MessageInfo} {st st₁ st' : Storage} {resp : Response}
  {set set' : List ValidatorEntry} {α : Type} {f : ValidatorEntry → α}

/-- The addresses and the weights of a set, in order. -/
def roster (set : List ValidatorEntry) : List (String × ℕ) :=
  set.map fun v => (v.address, v.weightBps)

theorem addresses_of_roster (h : roster set' = roster set) : addresses set' = addresses set := by
  have := congrArg (List.map Prod.fst) h
  simpa only [roster, addresses_eq, List.map_map, Function.comp_def] using this

/-- The roster and the cursor are as they were. -/
structure Steady (st st' : Storage) : Prop where
  cursor : st'.syncCursor = st.syncCursor
  roster : roster st'.validators = roster st.validators

/-- A column that counts no stake, rewards or entries. -/
def Fixed (f : ValidatorEntry → α) : Prop :=
  ∀ (v : ValidatorEntry) bonded pendingRewards activeUnbondEntries,
    f { v with bonded, pendingRewards, activeUnbondEntries } = f v

theorem Fixed.bonded (hf : Fixed f) (v : ValidatorEntry) (b : Uint128) :
    f { v with bonded := b } = f v := hf v b v.pendingRewards v.activeUnbondEntries

theorem fixed_roster : Fixed fun v => (v.address, v.weightBps) := fun _ _ _ _ => rfl

/-- The cursor and the fixed columns are as they were. -/
structure Unmoved (st st' : Storage) : Prop where
  cursor : st'.syncCursor = st.syncCursor
  column : ∀ {α : Type} {f : ValidatorEntry → α}, Fixed f →
    st'.validators.map f = st.validators.map f

theorem Unmoved.refl (st : Storage) : Unmoved st st := ⟨rfl, fun _ => rfl⟩

theorem Unmoved.trans (h : Unmoved st st₁) (h' : Unmoved st₁ st') : Unmoved st st' :=
  ⟨h'.cursor.trans h.cursor, fun hf => (h'.column hf).trans (h.column hf)⟩

theorem Unmoved.steady (h : Unmoved st st') : Steady st st' := ⟨h.cursor, h.column fixed_roster⟩

/-! ## Deposits and requests -/

theorem refreshTotals_unmoved (h : refreshTotals deps env st = .ok st') : Unmoved st st' := by
  obtain ⟨-, -, tb, pr, ts, -, -, -, rfl⟩ := refreshTotals_eq_ok.1 h
  refine ⟨rfl, fun hf => ?_⟩
  rw [List.map_map]
  exact List.map_congr_left fun v _ => hf v _ _ _

theorem ClosesFrom.unmoved (h : ClosesFrom st st₁) : Unmoved st st₁ := by
  cases h with
  | advance => exact .refl _
  | deposit h =>
    obtain ⟨d, rfl, -⟩ := acceptDeposit_ok h
    exact (refreshTotals_unmoved d.refreshed).trans ⟨rfl, fun hf => map_placeStake hf.bonded d.placed⟩
  | receive h =>
    -- pricing re-reads the stake, and joining writes the queue
    obtain ⟨st₂, -, -, -, -, hprice, hj⟩ := requestWithdrawal_ok h
    obtain ⟨pool, hpool, -⟩ := priceWithdrawal_eq_ok.1 hprice
    obtain ⟨u, oo, -, -, -, hst⟩ := joinWindow_ok hj
    refine (refreshTotals_unmoved (pricingPool_eq_ok.1 hpool).1).trans ?_
    rw [hst]
    exact ⟨rfl, fun _ => rfl⟩

/-! ## Closing and marking -/

theorem Undelegated.map_fixed {w : UnbondWindow} {vs : List ValidatorEntry} {ts : TotalsCache}
    {used : List String} {messages : List CosmosMsg} (h : Undelegated st w vs ts used messages)
    (hf : Fixed f) : vs.map f = st.validators.map f := by
  cases h with
  | nothing => rfl
  | issued hz hplan hissue hou =>
    refine foldlM_inv (f := issueLeg st.config.bondedDenom)
      (fun _ acc => acc.set.map f = st.validators.map f) ?_ _ _ _ rfl hissue
    intro leg rest acc acc' hacc hstep
    obtain ⟨v, hv, rfl⟩ := issueLeg_eq_ok.1 hstep
    exact (map_set hv (hf v _ v.pendingRewards _)).trans hacc

theorem Unmoved.closing {closing : Closing} {w : UnbondWindow}
    (hw : st.windows.lookup st.openWindow = some w) (hopen : w.state = .open)
    (hdue : w.closesAt ≤ env.time) (hc : closeOpenWindow env st = .ok (st', closing)) :
    Unmoved st st' := by
  obtain ⟨used, hund, ⟨-, -, hcursor⟩, -⟩ := closeOpenWindow_ok hw hopen hdue hc
  exact ⟨hcursor, fun hf => hund.map_fixed hf⟩

theorem Unmoved.overdue {messages : List CosmosMsg}
    (hc : closeWindowIfOverdue env st = .ok (st', messages)) : Unmoved st st' := by
  rcases closeWindowIfOverdue_ok hc with ⟨rfl, -⟩ | ⟨w, closing, hw, hopen, hdue, hc, -⟩
  · exact .refl _
  · exact .closing hw hopen hdue hc

theorem Marking.unmoved {now limit : ℕ} {balance : Uint128} {rets : List (ℕ × Uint128)}
    (h : Marking now limit balance st st' rets) : Unmoved st st' := by
  rw [h.frame]
  exact ⟨rfl, fun hf => map_release (fun v n => hf v v.bonded v.pendingRewards n) _ _⟩

/-! ## Upkeep and the manager -/

theorem Synced.map_next {limit : Option ℕ} (s : Synced deps env limit st) (hf : Fixed f) :
    s.next.validators.map f = st.validators.map f := by
  refine map_withPage ?_
  rw [List.map_map]
  exact List.map_congr_left fun v _ => hf v _ _ v.activeUnbondEntries

theorem Synced.roster_next {limit : Option ℕ} (s : Synced deps env limit st) :
    roster s.next.validators = roster st.validators := s.map_next fixed_roster

theorem Compounded.map_next {limit : Option ℕ} (c : Compounded deps env limit st) (hf : Fixed f) :
    c.next.validators.map f = st.validators.map f := by
  refine (map_restake hf.bonded c.restake_eq).trans (map_withPage ?_)
  rw [List.map_map]
  exact List.map_congr_left fun v _ => hf v _ _ v.activeUnbondEntries

theorem Compounded.roster_next {limit : Option ℕ} (c : Compounded deps env limit st) :
    roster c.next.validators = roster st.validators := c.map_next fixed_roster

theorem rebalance_map {allowlist : List String} {denom : String} {plan : List RedelegateStep}
    {acc acc' : RebalanceAcc} (h : plan.foldlM (rebalanceStep allowlist denom) acc = .ok acc')
    (hf : Fixed f) : acc'.set.map f = acc.set.map f := by
  refine foldlM_inv (f := rebalanceStep allowlist denom)
    (fun _ a => a.set.map f = acc.set.map f) ?_ _ _ _ rfl h
  intro step rest a a' ha hstep
  obtain ⟨-, hv, -, -, hu, -⟩ := rebalanceStep_redelegated hstep
  exact (map_set hu (hf.bonded _ _)).trans ((map_set hv (hf.bonded _ _)).trans ha)

/-- **The manager, inverted again**: new weights, or the columns as they were. -/
theorem executeManager_unmoved {m : ManagerMsg} (h : executeManager info m st = .ok (st', resp)) :
    (∃ weights, m = .setWeights weights ∧
      Validators.validateManagedWeights weights st.allowlist
        st.config.limits.maxValidatorWeightBps = .ok () ∧
      st' = { st with validators := Validators.applyWeights st.validators weights }) ∨
    Unmoved st st' := by
  rcases executeManager_ok h with
    ⟨weights, hm, hv, rfl, -⟩ | ⟨_, -, -, rfl, -⟩ | ⟨_, acc, -, hacc, rfl, -⟩
  · exact .inl ⟨weights, hm, hv, rfl⟩
  · exact .inr ⟨rfl, fun _ => rfl⟩
  · exact .inr ⟨rfl, fun hf => rebalance_map hacc hf⟩

/-- For the roster alone. -/
theorem executeManager_steady {m : ManagerMsg} (h : executeManager info m st = .ok (st', resp)) :
    (∃ weights, Validators.validateSet weights = .ok () ∧
      st' = { st with validators := Validators.applyWeights st.validators weights }) ∨
    Steady st st' := by
  rcases executeManager_unmoved h with ⟨weights, -, hv, rfl⟩ | hk
  · exact .inl ⟨weights, (validateManagedWeights_mem hv).1, rfl⟩
  · exact .inr hk.steady

/-! ## Every other call -/

/-- Whether a message may change the roster or the cursor. -/
def ExecuteMsg.rearranges : ExecuteMsg → Bool
  | .sync _ => true
  | .compound _ => true
  | .manager _ => true
  | _ => false

/-- **Every other call leaves the cursor and the fixed columns alone.** -/
theorem execute_unmoved {msg : ExecuteMsg} (hB : Booked st) (hr : msg.rearranges = false)
    (h : execute deps env info msg st = .ok (st', resp)) : Unmoved st st' := by
  cases msg with
  | deposit =>
    obtain ⟨st₁, _, _, _, _, ha, hc, -⟩ := executeDeposit_ok h
    exact (ClosesFrom.deposit ha).unmoved.trans (.overdue hc)
  | receive sender fromAddr amount msg =>
    obtain ⟨st₁, _, _, _, _, ha, hc, -⟩ := executeReceive_ok h
    exact (ClosesFrom.receive ha).unmoved.trans (.overdue hc)
  | claimMatured windowIds =>
    obtain ⟨_, _, st₁, _, _, -, hM, -, hP, -⟩ := executeClaimMatured_ok hB h
    refine hM.unmoved.trans ?_
    rw [hP.frame]
    exact ⟨rfl, fun _ => rfl⟩
  | compound limit => cases hr
  | advanceWindow =>
    obtain ⟨w, closing, hw, hopen, hdue, hc, -⟩ := executeAdvanceWindow_ok h
    exact .closing hw hopen hdue hc
  | collectMatured limit =>
    obtain ⟨ids, hmat, -⟩ := executeCollectMatured_ok h
    obtain ⟨_, _, -, hM, -⟩ := matureDueWindows_ok hB hmat
    exact hM.unmoved
  | sync limit => cases hr
  | manager m => cases hr
  | setPaused paused =>
    obtain ⟨rfl, -⟩ := executeSetPaused_ok h
    exact ⟨rfl, fun _ => rfl⟩
  | bootstrap tokenAddress tokenCodeHash =>
    obtain ⟨s, rfl, -⟩ := executeBootstrap_ok h
    exact ⟨rfl, fun hf => map_placeStake hf.bonded s.placed⟩

theorem execute_steady {msg : ExecuteMsg} (hB : Booked st) (hr : msg.rearranges = false)
    (h : execute deps env info msg st = .ok (st', resp)) : Steady st st' :=
  (execute_unmoved hB hr h).steady

end LstCore
