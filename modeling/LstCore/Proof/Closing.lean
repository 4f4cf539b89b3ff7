import LstCore.Proof.Frame
import LstCore.Proof.Marking

/-!
# Joining and closing the open window

* `joinWindow_ok`: a priced request joins the open window; it is a move of the queue.
* `closeOpenWindow_ok`: closing sends what the window owes to the staking module, one leg
  for each validator drawn on; it is a move of the queue.
* `closeWindowIfOverdue_ok`: the closing that rides along either does that or nothing.
-/

namespace LstCore

open Lib

variable {deps : Deps} {env : Env} {info : MessageInfo} {st st' : Storage}

theorem loadWindow_eq_ok {ws : Keymap ℕ UnbondWindow} {id : ℕ} {w : UnbondWindow} :
    loadWindow ws id = .ok w ↔ ws.lookup id = some w := by
  rw [loadWindow, orErr_eq_ok]

theorem assertOpen_eq_ok {w : UnbondWindow} : Windows.assertOpen w = .ok () ↔ w.state = .open := by
  unfold Windows.assertOpen
  split <;> simp_all

theorem assertClosable_eq_ok {w : UnbondWindow} {now : ℕ} :
    Windows.assertClosable w now = .ok () ↔ w.state = .open ∧ w.closesAt ≤ now := by
  unfold Windows.assertClosable
  rw [bind_eq_ok]
  constructor
  · rintro ⟨_, ho, h⟩
    rw [guard_eq_ok] at h
    exact ⟨assertOpen_eq_ok.1 ho, not_lt.1 h.1⟩
  · rintro ⟨ho, h⟩
    exact ⟨(), assertOpen_eq_ok.2 ho, guard_eq_ok.2 ⟨not_lt.2 h, rfl⟩⟩

/-! ## Joining -/

/-- **A request joins the open window.** -/
theorem joinWindow_ok {fromAddr : String} {amount owed : Uint128} {w' : UnbondWindow}
    (h : joinWindow deps fromAddr amount owed st = .ok (st', w')) :
    ∃ u oo, deps.addrValidate fromAddr = .ok u ∧
      Queue.Step st.queue (.join u amount owed) st'.queue ∧
      oo.val = st.totals.scrtOwedOpen.val + owed.val ∧
      st' = { st with
        windows := st'.windows
        claims := st'.claims
        claimIndex := st'.claimIndex
        totals := { st.totals with
          totalSupply := st.totals.totalSupply.satSub amount, scrtOwedOpen := oo } } := by
  unfold joinWindow at h
  simp only [bind_eq_ok, loadWindow_eq_ok, add_eq_ok, liftStd_eq_ok, pure_eq_ok, Prod.mk.injEq] at h
  obtain ⟨w, hw, _, hopen, sb, hsb, so, hso, u, hu, st₁, hrec, oo, hoo, rfl, rfl⟩ := h
  rw [assertOpen_eq_ok] at hopen
  unfold recordClaim at hrec
  simp only [Storage.putWindow] at hrec
  -- the first claim of the account against this window, or more on the one it has
  rcases hc : st.claims.lookup (u, st.openWindow) with _ | c
  · rw [hc] at hrec
    simp only [Except.ok.injEq] at hrec
    subst hrec
    exact ⟨u, oo, hu, .joinNew hw hopen hc hsb hso, hoo, rfl⟩
  · rw [hc] at hrec
    simp only [bind_eq_ok, add_eq_ok, pure_eq_ok] at hrec
    obtain ⟨csb, hcsb, cso, hcso, rfl⟩ := hrec
    exact ⟨u, oo, hu, .joinOld hw hopen hc hsb hso hcsb hcso, hoo, rfl⟩

/-- **A request for withdrawal, inverted**: priced, then joined. -/
theorem requestWithdrawal_ok {fromAddr : String} {amount owed : Uint128} {msg : Option Binary}
    {w : UnbondWindow} {token : ContractInfo}
    (h : requestWithdrawal deps env info fromAddr amount msg st = .ok (st', w, owed, token)) :
    ∃ st₁, st.config.token = some token ∧ info.sender = token.address ∧ amount ≠ 0 ∧ owed ≠ 0 ∧
      priceWithdrawal deps env amount st = .ok (st₁, owed) ∧
      joinWindow deps fromAddr amount owed st₁ = .ok (st', w) := by
  unfold requestWithdrawal at h
  simp only [bind_eq_ok, guard_eq_ok, Config.boundToken, orErr_eq_ok, Prod.exists, pure_eq_ok,
    Prod.mk.injEq, ne_eq, not_not] at h
  obtain ⟨t, ht, hs, _, -, ha, st₁, o, hp, ho, st₂, w', hj, rfl, rfl, rfl, rfl⟩ := h
  exact ⟨st₁, ht, hs, ha, ho, hp, hj⟩

/-! ## Closing -/

/-- What closing a window makes of the set and the totals: nothing when it owes nothing,
otherwise a plan is issued in full. -/
inductive Undelegated (st : Storage) (w : UnbondWindow) :
    List ValidatorEntry → TotalsCache → List String → List CosmosMsg → Prop
  | nothing (hz : w.scrtOwed = 0) :
      Undelegated st w st.validators st.totals w.validatorsUsed []
  | issued {legs : List Validators.UnbondLeg} {acc : LegAcc} {ou : Uint128} (hz : w.scrtOwed ≠ 0)
      (hplan : Validators.planUndelegation st.validators w.scrtOwed
        st.config.params.maxUnbondEntriesPerValidator = .ok legs)
      (hissue : legs.foldlM (issueLeg st.config.bondedDenom)
        ⟨st.validators, w.validatorsUsed, []⟩ = .ok acc)
      (hou : ou.val = st.totals.scrtOwedUnbonding.val + w.scrtOwed.val) :
      Undelegated st w acc.set { st.totals with
        totalBonded := st.totals.totalBonded.satSub w.scrtOwed
        scrtOwedOpen := st.totals.scrtOwedOpen.satSub w.scrtOwed
        scrtOwedUnbonding := ou } acc.used acc.messages

theorem undelegateWindow_ok {w w' : UnbondWindow} {messages : List CosmosMsg}
    (h : undelegateWindow st w = .ok (st', w', messages)) :
    ∃ vs ts used, Undelegated st w vs ts used messages ∧ w' = { w with validatorsUsed := used } ∧
      st' = { st with validators := vs, totals := ts } := by
  unfold undelegateWindow at h
  split at h
  · rename_i hz
    simp only [Except.ok.injEq, Prod.mk.injEq] at h
    obtain ⟨rfl, rfl, rfl⟩ := h
    exact ⟨_, _, _, .nothing hz, rfl, rfl⟩
  · rename_i hz
    simp only [bind_eq_ok, add_eq_ok, pure_eq_ok, Prod.mk.injEq] at h
    obtain ⟨legs, hlegs, acc, hacc, ou, hou, rfl, rfl, rfl⟩ := h
    exact ⟨_, _, _, .issued hz hlegs hacc hou, rfl, rfl⟩

theorem Undelegated.used_eq {w : UnbondWindow} {vs : List ValidatorEntry} {ts : TotalsCache}
    {used : List String} {messages : List CosmosMsg} (h : Undelegated st w vs ts used messages)
    (hz : w.scrtOwed = 0) : used = w.validatorsUsed := by
  cases h with
  | nothing => rfl
  | issued hz' => exact absurd hz hz'

theorem openNextWindow_ok {id : ℕ} (h : openNextWindow env st = .ok (id, st')) :
    id = st.nextWindowId ∧ st' = { st with
      windows := st.windows.insert st.nextWindowId
        (Windows.open st.nextWindowId env.time st.config.params.unbondWindowSecs)
      openWindow := st.nextWindowId
      nextWindowId := st.nextWindowId + 1 } := by
  unfold openNextWindow allocWindowId at h
  split at h
  · simp only [ok_bind, pure_eq_ok, Prod.mk.injEq] at h
    obtain ⟨rfl, rfl⟩ := h
    exact ⟨rfl, rfl⟩
  · simp [Bind.bind, Except.bind] at h

/-- **Closing the open window is a move of the queue.** -/
theorem closeOpenWindow_ok {closing : Closing} {w : UnbondWindow}
    (hw : st.windows.lookup st.openWindow = some w) (hopen : w.state = .open)
    (hdue : w.closesAt ≤ env.time) (h : closeOpenWindow env st = .ok (st', closing)) :
    ∃ used, Undelegated st w st'.validators st'.totals used closing.messages ∧
      (st'.config = st.config ∧ st'.allowlist = st.allowlist ∧ st'.syncCursor = st.syncCursor) ∧
      Queue.Step st.queue (.close env.time
        (satAdd64 env.time st.config.params.unbondingPeriodSecs)
        st.config.params.unbondWindowSecs used) st'.queue := by
  unfold closeOpenWindow at h
  simp only [bind_eq_ok, loadWindow_eq_ok, Prod.exists, pure_eq_ok, Prod.mk.injEq] at h
  obtain ⟨w', hw', st₁, used', messages, hund, id, st₂, hnext, rfl, rfl⟩ := h
  rw [hw] at hw'
  cases hw'
  obtain ⟨vs, ts, used, hu, rfl, rfl⟩ := undelegateWindow_ok hund
  obtain ⟨-, rfl⟩ := openNextWindow_ok hnext
  unfold Windows.close
  by_cases hz : w.scrtOwed = 0
  · simp only [if_pos hz]
    refine ⟨used, hu, ⟨rfl, rfl, rfl⟩, ?_⟩
    rw [hu.used_eq hz]
    exact .closeEmpty (q := st.queue) hw hopen hdue hz
  · simp only [if_neg hz]
    exact ⟨used, hu, ⟨rfl, rfl, rfl⟩, .close (q := st.queue) hw hopen hdue hz⟩

/-- **The closing that rides along** closes the open window or does nothing. -/
theorem closeWindowIfOverdue_ok {messages : List CosmosMsg}
    (h : closeWindowIfOverdue env st = .ok (st', messages)) :
    (st' = st ∧ messages = []) ∨
    (∃ w closing, st.windows.lookup st.openWindow = some w ∧ w.state = .open ∧
      w.closesAt ≤ env.time ∧ closeOpenWindow env st = .ok (st', closing) ∧
      messages = closing.messages) := by
  unfold closeWindowIfOverdue at h
  rw [bind_eq_ok] at h
  obtain ⟨w, hw, h⟩ := h
  rw [loadWindow_eq_ok] at hw
  split at h
  · simp only [pure_eq_ok, Prod.mk.injEq] at h
    exact .inl ⟨h.1.symm, h.2.symm⟩
  · rename_i hcl
    obtain ⟨hopen, hdue⟩ := assertClosable_eq_ok.1 hcl
    -- a trial plan comes first, and what it says in refusing is dropped
    generalize (if w.scrtOwed = 0 then _ else _ : Exec (List Validators.UnbondLeg)) = plan at h
    rcases plan with (e | _) | _
    · simp only [pure_eq_ok, Prod.mk.injEq] at h
      exact .inl ⟨h.1.symm, h.2.symm⟩
    · simp at h
    · simp only [bind_eq_ok, Prod.exists, pure_eq_ok, Prod.mk.injEq] at h
      obtain ⟨st₁, closing, hc, rfl, rfl⟩ := h
      exact .inr ⟨w, closing, hw, hopen, hdue, hc, rfl⟩

theorem executeAdvanceWindow_ok {resp : Response} (h : executeAdvanceWindow env st = .ok (st', resp)) :
    ∃ w closing, st.windows.lookup st.openWindow = some w ∧ w.state = .open ∧
      w.closesAt ≤ env.time ∧ closeOpenWindow env st = .ok (st', closing) ∧
      resp.messages = closing.messages := by
  unfold executeAdvanceWindow at h
  simp only [bind_eq_ok, loadWindow_eq_ok, Prod.exists, pure_eq_ok, Prod.mk.injEq] at h
  obtain ⟨w, hw, u, hcl, st₁, closing, hc, rfl, rfl⟩ := h
  obtain ⟨hopen, hdue⟩ := assertClosable_eq_ok.1 hcl
  exact ⟨w, closing, hw, hopen, hdue, hc, rfl⟩

end LstCore
