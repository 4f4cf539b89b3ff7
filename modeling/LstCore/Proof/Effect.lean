import LstCore.Proof.World

/-!
# What a call can do to the money

Every call that succeeds does one of four things to the windows that are not open
(`execute_effect`): nothing; the open window closes; due windows are marked matured; due
windows are marked and claims are paid.
-/

namespace LstCore

open Lib

variable {deps : Deps} {env : Env} {info : MessageInfo} {st st' st₁ : Storage} {resp : Response}
  {balance : Uint128}

/-- Nothing but the open window has moved. -/
structure Idle (st st' : Storage) : Prop where
  openWindow : st'.openWindow = st.openWindow
  windows : ∀ id, id ≠ st.openWindow → st'.windows.lookup id = st.windows.lookup id
  activeWindows : st'.activeWindows = st.activeWindows
  owedUnbonding : st'.totals.scrtOwedUnbonding = st.totals.scrtOwedUnbonding
  owedMatured : st'.totals.scrtOwedMatured = st.totals.scrtOwedMatured
  bondedDenom : st'.config.bondedDenom = st.config.bondedDenom
  period : st'.config.params.unbondingPeriodSecs = st.config.params.unbondingPeriodSecs

/-- The limit up to which a message marks due windows, when it marks any. -/
def ExecuteMsg.markLimit : ExecuteMsg → Option ℕ
  | .collectMatured limit => some (limit.getD defaultSyncLimit)
  | .claimMatured _ => some u32Max
  | _ => none

/-- What a call did: `env` and `balance` are what it saw, `limit` how far it marks, and
`messages` what it answered. -/
inductive Effect (env : Env) (balance : Uint128) (limit : Option ℕ) (st st' : Storage)
    (messages : List CosmosMsg) : Prop
  | idle (hl : limit = none) (h : Idle st st') (hm : undelegations messages = [])
  | closed (hl : limit = none) {st₁ : Storage} {closing : Closing} {w : UnbondWindow}
      (h : Idle st st₁) (hB : Booked st₁) (hS : Slotted st₁)
      (hw : st₁.windows.lookup st₁.openWindow = some w) (hopen : w.state = .open)
      (hdue : w.closesAt ≤ env.time) (hc : closeOpenWindow env st₁ = .ok (st', closing))
      (hm : undelegations messages = undelegations closing.messages)
  | marked {n : ℕ} {rets : List (ℕ × Uint128)} (hl : limit = some n)
      (hM : Marking env.time n balance st st' rets) (hm : messages = [])
  | paid (hl : limit = some u32Max) {st₁ : Storage} {rets : List (ℕ × Uint128)} {u : Addr}
      {ids : List ℕ} {paid : Uint128} {hist : List Move}
      (hM : Marking env.time u32Max balance st st₁ rets)
      (hP : Payment env u ids st₁ st' paid hist)
      (hm : messages = [.bankSend u [⟨st₁.config.bondedDenom, paid⟩]])

theorem Idle.refl (st : Storage) : Idle st st := ⟨rfl, fun _ _ => rfl, rfl, rfl, rfl, rfl, rfl⟩

theorem Still.idle (h : Still st st') : Idle st st' where
  openWindow := congrArg Queue.openWindow h.queue
  windows id _ := by rw [show st'.windows = st.windows from congrArg Queue.windows h.queue]
  activeWindows := congrArg Queue.activeWindows h.queue
  owedUnbonding := h.owedUnbonding
  owedMatured := h.owedMatured
  bondedDenom := h.bondedDenom
  period := h.period

theorem Idle.trans (h : Idle st st₁) (h' : Idle st₁ st') : Idle st st' where
  openWindow := h'.openWindow.trans h.openWindow
  windows id hid := (h'.windows id (h.openWindow ▸ hid)).trans (h.windows id hid)
  activeWindows := h'.activeWindows.trans h.activeWindows
  owedUnbonding := h'.owedUnbonding.trans h.owedUnbonding
  owedMatured := h'.owedMatured.trans h.owedMatured
  bondedDenom := h'.bondedDenom.trans h.bondedDenom
  period := h'.period.trans h.period

theorem joinWindow_idle {fromAddr : String} {amount owed : Uint128} {w : UnbondWindow}
    (h : joinWindow deps fromAddr amount owed st = .ok (st', w)) : Idle st st' := by
  obtain ⟨u, oo, -, hstep, -, hst⟩ := joinWindow_ok h
  obtain ⟨v, sb, so, -, -, -, ho, hwin⟩ := hstep.join_windows
  refine ⟨ho, fun id hid => ?_, ?_, ?_, ?_, ?_, ?_⟩
  · rw [show st'.windows = _ from hwin]
    exact AList.lookup_insert_ne hid
  all_goals rw [hst]

theorem ClosesFrom.idle (h : ClosesFrom st st₁) : Idle st st₁ := by
  cases h with
  | advance => exact .refl _
  | deposit h =>
    obtain ⟨d, rfl, -⟩ := acceptDeposit_ok h
    exact d.still.idle
  | receive h =>
    obtain ⟨st₂, hs, -, hj⟩ := requestWithdrawal_join h
    exact hs.idle.trans (joinWindow_idle hj)

/-! ## Every call -/

/-- A closing that may ride along has closed the window or done nothing. -/
theorem overdue_effect {messages closing : List CosmosMsg} (hB : Booked st) (hS : Slotted st)
    (hc : ClosesFrom st st₁) (h : closeWindowIfOverdue env st₁ = .ok (st', closing))
    (hm : undelegations messages = undelegations closing) :
    Effect env balance none st st' messages := by
  rcases closeWindowIfOverdue_ok h with ⟨rfl, rfl⟩ | ⟨w, closing, hw, hopen, hdue, hcl, rfl⟩
  · exact .idle rfl hc.idle hm
  · exact .closed rfl hc.idle (hB.closesFrom hc) (hS.closesFrom hc) hw hopen hdue hcl hm

/-- What a call did, where `balance` is what the bank answers if it answers. -/
theorem execute_effect_of {msg : ExecuteMsg} (hB : Booked st) (hS : Slotted st)
    (hb : ∀ b, deps.queryBalance env.contract.address st.config.bondedDenom = .ok b → b = balance)
    (h : execute deps env info msg st = .ok (st', resp)) :
    Effect env balance msg.markLimit st st' resp.messages := by
  cases msg with
  | deposit =>
    obtain ⟨st₁, _, _, messages, closing, ha, hc, hm⟩ := executeDeposit_ok h
    obtain ⟨d, -, rfl⟩ := acceptDeposit_ok ha
    exact overdue_effect hB hS (.deposit ha) hc
      (by rw [hm]; simp [undelegations, Deposited.messages, delegateMsg])
  | receive sender fromAddr amount msg =>
    obtain ⟨st₁, _, _, _, closing, hr, hc, hm⟩ := executeReceive_ok h
    exact overdue_effect hB hS (.receive hr) hc (by rw [hm]; simp [undelegations])
  | claimMatured windowIds =>
    obtain ⟨b, rets, st₁, paid, hist, hb', hM, -, hP, -, hm⟩ := executeClaimMatured_ok hB h
    obtain rfl := hb b hb'
    exact .paid rfl hM hP hm
  | compound limit =>
    obtain ⟨c, rfl, -⟩ := executeCompound_ok h
    refine .idle rfl c.still.idle (undelegations_eq_nil fun m hm v c => ?_)
    -- withdrawals, a delegation and a mint
    rcases executeCompound_messages h m hm with ⟨_, rfl⟩ | ⟨_, _, rfl⟩ | ⟨_, _, rfl⟩ <;> simp
  | advanceWindow =>
    obtain ⟨w, closing, hw, hopen, hdue, hc, hm⟩ := executeAdvanceWindow_ok h
    exact .closed rfl (.refl st) hB hS hw hopen hdue hc (by rw [hm])
  | collectMatured limit =>
    obtain ⟨ids, hmat, hm⟩ := executeCollectMatured_ok h
    obtain ⟨b, rets, hb', hM, -⟩ := matureDueWindows_ok hB hmat
    obtain rfl := hb b hb'
    exact .marked rfl hM hm
  | sync limit =>
    obtain ⟨s, rfl, hm, -⟩ := executeSync_ok h
    exact .idle rfl s.still.idle (by rw [hm]; rfl)
  | manager m =>
    refine .idle rfl (executeManager_still h).idle (undelegations_eq_nil fun m hm v c => ?_)
    -- the manager redelegates only
    obtain ⟨_, _, _, rfl⟩ := executeManager_messages h m hm
    simp
  | setPaused paused =>
    obtain ⟨rfl, hm⟩ := executeSetPaused_ok h
    exact .idle rfl ⟨rfl, fun _ _ => rfl, rfl, rfl, rfl, rfl, rfl⟩ (by rw [hm]; rfl)
  | bootstrap tokenAddress tokenCodeHash =>
    obtain ⟨s, rfl, hm⟩ := executeBootstrap_ok h
    exact .idle rfl (s.still _ _).idle
      (by rw [hm]; simp [undelegations, Seeded.messages, delegateMsg])

/-- **What a call did.** -/
theorem execute_effect {msg : ExecuteMsg} (hB : Booked st) (hS : Slotted st)
    (hb : deps.queryBalance env.contract.address st.config.bondedDenom = .ok balance)
    (h : execute deps env info msg st = .ok (st', resp)) :
    Effect env balance msg.markLimit st st' resp.messages :=
  execute_effect_of hB hS (fun _ hb' => Except.ok.inj (hb'.symm.trans hb)) h

/-- A closing names each validator it undelegates from once. -/
theorem undelegated_nodup {e : Call × Response} (hB : Booked st) (hS : Slotted st)
    (h : Step st e st') : ((undelegations e.2.messages).map (·.1)).Nodup := by
  obtain ⟨call, resp⟩ := e
  show ((undelegations resp.messages).map (·.1)).Nodup
  cases call with
  | migrate => rw [(migrate_ok h).2]; exact List.nodup_nil
  | execute deps env info msg =>
    have heff : Effect env
        ((deps.queryBalance env.contract.address st.config.bondedDenom).toOption.getD 0)
        msg.markLimit st st' resp.messages :=
      execute_effect_of hB hS (fun b hb => by rw [hb]; rfl) h
    cases heff with
    | idle _ _ hm => rw [hm]; exact List.nodup_nil
    | closed _ _ hB₁ hS₁ hw hopen hdue hc hm =>
      obtain ⟨used, hund, -, -⟩ := closeOpenWindow_ok hw hopen hdue hc
      have hnil := hB₁.used_nil hw hopen
      rw [hm, hund.names hnil]
      exact (hund.slots hS₁ hnil).1
    | marked _ _ hm => rw [hm]; exact List.nodup_nil
    | paid _ _ _ hm => rw [hm]; exact List.nodup_nil

end LstCore
