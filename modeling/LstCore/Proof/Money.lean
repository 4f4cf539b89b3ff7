import LstCore.Proof.Effect

/-!
# What a transaction does to the balance

Messages take out of the balance no more than they spend (`run_spends`), and a page of
withdrawals brings in exactly the rewards it counts (`run_withdrawals`). So a transaction
other than a claim never lowers the balance (`tx_balance`): what it delegates has come in
with it.
-/

namespace LstCore

open Lib

variable {self : Addr} {denom : String} {rewards : String → Uint128} {till till' : Till}
  {messages : List CosmosMsg} {w w' : World} {t : Tx}

/-! ## Messages -/

/-- What a message spends. -/
def spentBy (self : Addr) (denom : String) : CosmosMsg → ℕ
  | .delegate _ coin => amountIn denom [coin]
  | .bankSend dest coins => if dest = self then 0 else amountIn denom coins
  | _ => 0

theorem collect_ok {validator : String} (h : till.collect rewards validator = some till') :
    (validator ∈ till.withdrawn ∧ till' = till) ∨
      (validator ∉ till.withdrawn ∧ till'.withdrawn = validator :: till.withdrawn ∧
        till'.balance.val = till.balance.val + (rewards validator).val) := by
  unfold Till.collect at h
  split at h
  · rename_i hin
    exact .inl ⟨hin, (Option.some.inj h).symm⟩
  · rename_i hin
    simp only [Option.bind_eq_bind, Option.bind_eq_some_iff, Word.add?_eq_some, Option.pure_def,
      Option.some.injEq] at h
    obtain ⟨b, hb, rfl⟩ := h
    exact .inr ⟨hin, rfl, hb⟩

theorem collect_le {validator : String} (h : till.collect rewards validator = some till') :
    till.balance.val ≤ till'.balance.val := by
  rcases collect_ok h with ⟨-, rfl⟩ | ⟨-, -, hb⟩ <;> omega

theorem spend_eq_some {amount : ℕ} : till.spend amount = some till' ↔
    till.balance.val = till'.balance.val + amount ∧ till' = { till with balance := till'.balance } := by
  unfold Till.spend
  simp only [Option.bind_eq_bind, Option.bind_eq_some_iff, Word.ofNat?_eq_some, Word.sub?_eq_some,
    Option.pure_def, Option.some.injEq]
  constructor
  · rintro ⟨a, ha, b, hb, rfl⟩
    exact ⟨by simp only; omega, rfl⟩
  · rintro ⟨hb, he⟩
    have := till.balance.isLt
    exact ⟨⟨amount, by omega⟩, rfl, till'.balance, hb, he.symm⟩

/-- One message takes out no more than it spends. -/
theorem run_spends_one {m : CosmosMsg} (h : till.run self denom rewards m = some till') :
    till.balance.val ≤ till'.balance.val + spentBy self denom m := by
  cases m with
  | withdrawDelegatorReward v => exact (collect_le h).trans (Nat.le_add_right _ _)
  -- a delegation or an undelegation pays the rewards of its validator out first
  | undelegate v c => exact (collect_le h).trans (Nat.le_add_right _ _)
  | delegate v c =>
    simp only [Till.run, Option.bind_eq_bind, Option.bind_eq_some_iff] at h
    obtain ⟨mid, hc, hs⟩ := h
    have := collect_le hc
    have := (spend_eq_some.1 hs).1
    simp only [spentBy]
    omega
  | redelegate src dst c =>
    simp only [Till.run, Option.bind_eq_bind, Option.bind_eq_some_iff] at h
    obtain ⟨mid, hc, hs⟩ := h
    exact ((collect_le hc).trans (collect_le hs)).trans (Nat.le_add_right _ _)
  | bankSend dest coins =>
    simp only [Till.run, Option.bind_eq_bind, Option.bind_eq_some_iff, Option.pure_def,
      Option.some.injEq] at h
    obtain ⟨after, hs, rfl⟩ := h
    have := (spend_eq_some.1 hs).1
    simp only [spentBy]
    split <;> omega
  | token c m =>
    simp only [Till.run, Option.some.injEq] at h
    subst h
    exact Nat.le_add_right _ _

/-- **Messages take out no more than they spend.** -/
theorem run_spends : ∀ {messages : List CosmosMsg} {till till' : Till},
    messages.foldlM (Till.run self denom rewards) till = some till' →
    till.balance.val ≤ till'.balance.val + (messages.map (spentBy self denom)).sum := by
  intro messages
  induction messages with
  | nil =>
    intro till till' h
    simp only [List.foldlM_nil, Option.pure_def, Option.some.injEq] at h
    subst h
    exact Nat.le_add_right _ _
  | cons m messages ih =>
    intro till till' h
    rw [List.foldlM_cons, Option.bind_eq_bind, Option.bind_eq_some_iff] at h
    obtain ⟨mid, hm, h⟩ := h
    have := run_spends_one hm
    have := ih h
    rw [List.map_cons, List.sum_cons]
    omega

theorem spent_eq_zero (h : ∀ m ∈ messages, spentBy self denom m = 0) :
    (messages.map (spentBy self denom)).sum = 0 := by
  rw [List.sum_eq_zero_iff]
  intro x hx
  obtain ⟨m, hm, rfl⟩ := List.mem_map.1 hx
  exact h m hm

/-- **A page of withdrawals** brings in the rewards of its validators, when they are all
different and none has been withdrawn yet, and withdraws those that have some. -/
theorem run_withdrawals {deps : Deps} {contract : Addr} :
    ∀ {page : List ValidatorEntry} {till till' : Till}, (page.map (·.address)).Nodup →
    (∀ v ∈ page, v.address ∉ till.withdrawn) →
    (withdrawals deps contract denom page).foldlM
      (Till.run self denom (rewardsAt deps contract denom)) till = some till' →
    till'.balance.val = till.balance.val + rewardsOf deps contract denom page ∧
      ∀ a, a ∈ till'.withdrawn ↔ a ∈ till.withdrawn ∨
        a ∈ page.map (·.address) ∧ rewardsAt deps contract denom a ≠ 0 := by
  intro page
  induction page with
  | nil =>
    intro till till' _ _ h
    simp only [withdrawals, List.filter_nil, List.map_nil, List.foldlM_nil, Option.pure_def,
      Option.some.injEq] at h
    subst h
    simp [rewardsOf]
  | cons v page ih =>
    intro till till' hnd hnew h
    rw [List.map_cons, List.nodup_cons] at hnd
    have hpage := fun u hu => hnew u (List.mem_cons_of_mem _ hu)
    -- a validator with no rewards gets no message
    by_cases hz : rewardsAt deps contract denom v.address = 0
    · have hskip : withdrawals deps contract denom (v :: page) = withdrawals deps contract denom page := by
        simp [withdrawals, hz]
      rw [hskip] at h
      obtain ⟨hb, hw⟩ := ih hnd.2 hpage h
      constructor
      · simp [rewardsOf, hz] at hb ⊢
        exact hb
      · intro a
        rw [hw, List.map_cons, List.mem_cons]
        constructor
        · rintro (hin | ⟨hin, hne⟩)
          · exact .inl hin
          · exact .inr ⟨.inr hin, hne⟩
        · rintro (hin | ⟨rfl | hin, hne⟩)
          · exact .inl hin
          · exact absurd hz hne
          · exact .inr ⟨hin, hne⟩
    · have hcons : withdrawals deps contract denom (v :: page) =
          .withdrawDelegatorReward v.address :: withdrawals deps contract denom page := by
        simp [withdrawals, hz]
      rw [hcons, List.foldlM_cons, Option.bind_eq_bind, Option.bind_eq_some_iff] at h
      obtain ⟨mid, hm, h⟩ := h
      rcases collect_ok hm with ⟨hin, -⟩ | ⟨-, hw, hb⟩
      · exact absurd hin (hnew v List.mem_cons_self)
      · obtain ⟨hb', hw'⟩ := ih hnd.2 (fun u hu hin => by
          rw [hw, List.mem_cons] at hin
          rcases hin with he | hin
          · exact hnd.1 (he ▸ List.mem_map_of_mem hu)
          · exact hpage u hu hin) h
        constructor
        · simp only [rewardsOf, List.map_cons, List.sum_cons] at hb' ⊢
          omega
        · intro a
          rw [hw', hw, List.map_cons, List.mem_cons, List.mem_cons]
          constructor
          · rintro ((rfl | hin) | ⟨hin, hne⟩)
            · exact .inr ⟨.inl rfl, hz⟩
            · exact .inl hin
            · exact .inr ⟨.inr hin, hne⟩
          · rintro (hin | ⟨rfl | hin, hne⟩)
            · exact .inl (.inr hin)
            · exact .inl (.inl rfl)
            · exact .inr ⟨hin, hne⟩

/-! ## Transactions -/

theorem exactFunds_amount {info : MessageInfo} {amount : Uint128}
    (h : exactFunds info denom = .ok amount) : amountIn denom info.funds = amount.val := by
  unfold exactFunds at h
  split at h
  · rename_i coin hc
    split at h
    · rename_i hd
      simp only [Except.ok.injEq] at h
      rw [hc, ← h]
      simp [amountIn, hd.1]
    · simp at h
  · simp at h

@[simp] theorem spentBy_token {c : ContractInfo} {m : TokenExecuteMsg} :
    spentBy self denom (.token c m) = 0 := rfl

theorem spentBy_bankSend_le {u : Addr} {denom' : String} {paid : Uint128} :
    spentBy self denom (.bankSend u [⟨denom', paid⟩]) ≤ paid.val := by
  simp only [spentBy, amountIn, List.filter_cons, List.filter_nil]
  split
  · exact Nat.zero_le _
  · split <;> simp

@[simp] theorem spentBy_delegateMsg {validator : String} {amount : Uint128} :
    spentBy self denom (delegateMsg validator denom amount) = amount.val := by
  simp [spentBy, delegateMsg, amountIn]

/-- Closing spends nothing. -/
theorem Undelegated.spends {st : Storage} {v : UnbondWindow} {vs : List ValidatorEntry}
    {totals : TotalsCache} {used : List String} (h : Undelegated st v vs totals used messages) :
    (messages.map (spentBy self denom)).sum = 0 :=
  spent_eq_zero fun m hm => by obtain ⟨_, _, rfl⟩ := h.messages_mem m hm; rfl

theorem overdue_spends {env : Env} {st st' : Storage} {closing : List CosmosMsg}
    (h : closeWindowIfOverdue env st = .ok (st', closing)) :
    (closing.map (spentBy self denom)).sum = 0 := by
  rcases closeWindowIfOverdue_ok h with ⟨-, rfl⟩ | ⟨v, closing, hw, hopen, hdue, hc, rfl⟩
  · rfl
  · obtain ⟨used, hund, -⟩ := closeOpenWindow_ok hw hopen hdue hc
    exact hund.spends

/-- A mint of fee shares spends nothing. -/
theorem feeMessages_spends {config : Config} {fee : Uint128} (h : feeMessages config fee = .ok messages) :
    (messages.map (spentBy self denom)).sum = 0 := by
  rcases feeMessages_ok h with rfl | ⟨c, m, rfl⟩ <;> rfl

/-- A restake spends no more than was harvested. -/
theorem restake_spends {st : Storage} {pool : PoolTotals} {set set' : List ValidatorEntry}
    {harvested fee : Uint128} (h : restake st pool set harvested = .ok (set', messages, fee)) :
    (messages.map (spentBy self st.config.bondedDenom)).sum ≤ harvested.val := by
  rcases restake_ok h with ⟨-, -, rfl, -⟩ | ⟨-, before, validator, feeMsgs, -, -, -, hfee, rfl⟩
  · exact Nat.zero_le _
  · rw [List.map_cons, List.sum_cons, feeMessages_spends hfee, spentBy_delegateMsg]
    exact Nat.le_refl _

theorem addresses_page {set : List ValidatorEntry} (h : (addresses set).Nodup) (cursor stop : ℕ) :
    ((pageOf cursor stop set).map (·.address)).Nodup := by
  rw [addresses_eq] at h
  exact h.sublist (((List.drop_sublist _ _).trans (List.take_sublist _ _)).map _)

/-- **A transaction other than a claim never lowers the balance.** -/
theorem tx_balance (hS : Slotted w.store) (h : w.tx t = some w')
    (hne : ∀ ids, t.msg ≠ .claimMatured ids) : w.balance.val ≤ w'.balance.val := by
  obtain ⟨b, store, resp, till, hf, he, ht, rfl⟩ := World.tx_ok h
  rw [World.funded_eq_some] at hf
  unfold World.runMessages at ht
  have hspent := run_spends ht
  show w.balance.val ≤ till.balance.val
  -- what is spent has come in with the transaction's funds
  suffices hsuff : (resp.messages.map (spentBy w.self.address w.store.config.bondedDenom)).sum ≤
      amountIn w.store.config.bondedDenom t.info.funds ∨ b.val ≤ till.balance.val by
    rcases hsuff with hsuff | hsuff <;> simp only at hspent <;> omega
  cases hmsg : t.msg with
  | claimMatured ids => exact absurd hmsg (hne ids)
  | deposit =>
    rw [hmsg] at he
    obtain ⟨st₁, deposit, shares, messages, closing, ha, hc, hm⟩ := executeDeposit_ok he
    obtain ⟨d, -, rfl⟩ := acceptDeposit_ok ha
    left
    rw [hm, List.map_append, List.sum_append, overdue_spends hc, exactFunds_amount d.funded,
      Deposited.messages, refreshTotals_config d.refreshed]
    simp
  | bootstrap tokenAddress tokenCodeHash =>
    rw [hmsg] at he
    obtain ⟨s, -, hm⟩ := executeBootstrap_ok he
    left
    rw [hm, exactFunds_amount s.funded, Seeded.messages]
    simp
  | receive sender fromAddr amount msg =>
    rw [hmsg] at he
    obtain ⟨st₁, v, owed, token, closing, -, hc, hm⟩ := executeReceive_ok he
    left
    rw [hm, List.map_cons, List.sum_cons, overdue_spends hc]
    exact Nat.zero_le _
  | compound limit =>
    rw [hmsg] at he
    obtain ⟨c, -, hm, -⟩ := executeCompound_ok he
    rw [hm, Compounded.messages, List.foldlM_append, Option.bind_eq_bind, Option.bind_eq_some_iff] at ht
    obtain ⟨mid, hmid, ht⟩ := ht
    obtain ⟨hin, -⟩ := run_withdrawals (addresses_page hS.distinct _ _) (by simp) hmid
    have hout := run_spends ht
    -- the rewards come in before any of them goes out
    right
    have hsum := @restake_spends w.self.address _ _ _ _ _ _ _ c.restake_eq
    have hHv : c.harvested.val = rewardsOf (w.deps t.view b) w.self.address
        w.store.config.bondedDenom (pageOf w.store.syncCursor c.stop w.store.validators) :=
      c.harvested_val
    simp only at hin
    omega
  | advanceWindow =>
    rw [hmsg] at he
    obtain ⟨v, closing, hw, hopen, hdue, hc, hm⟩ := executeAdvanceWindow_ok he
    obtain ⟨used, hund, -⟩ := closeOpenWindow_ok hw hopen hdue hc
    left
    rw [hm, hund.spends]
    exact Nat.zero_le _
  | collectMatured limit =>
    rw [hmsg] at he
    obtain ⟨-, -, hm⟩ := executeCollectMatured_ok he
    left
    rw [hm]
    exact Nat.zero_le _
  | sync limit =>
    rw [hmsg] at he
    obtain ⟨-, -, hm, -⟩ := executeSync_ok he
    left
    rw [hm]
    exact Nat.zero_le _
  | manager m =>
    rw [hmsg] at he
    left
    rw [spent_eq_zero fun x hx => by obtain ⟨_, _, _, rfl⟩ := executeManager_messages he x hx; rfl]
    exact Nat.zero_le _
  | setPaused paused =>
    rw [hmsg] at he
    obtain ⟨-, hm⟩ := executeSetPaused_ok he
    left
    rw [hm]
    exact Nat.zero_le _

end LstCore
