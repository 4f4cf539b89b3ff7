import LstCore.Main.NoDilution
import LstCore.Proof.Accept

/-!
# The way out

Shares that are worth something can be sent back in any reachable state: whether the contract is
paused, its slots are full, its window is overdue or its validators have been slashed since it last
looked, the request goes through and is owed its part of the assets (`exit_iff`).
-/

namespace LstCore

open Lib

/-- **The close behind a request or a deposit** goes through where what is owed by then stays in range,
and leaves the configuration alone. -/
theorem ClosesFrom.closes {st st₁ : Storage} (h : ClosesFrom st st₁) (hR : Reachable st)
    (howed : st₁.totals.scrtOwedUnbonding.val + st₁.totals.scrtOwedOpen.val < 2 ^ 128)
    (hid : st₁.nextWindowId + 1 ≤ u64Max) (env : Env) :
    ∃ store closing, closeWindowIfOverdue env st₁ = .ok (store, closing) ∧
      store.config = st.config := by
  obtain ⟨-, w, -, hw, hopen, -⟩ := h.openWindow_lookup hR.booked
  have hrange : InRange st₁ w := by
    refine ⟨fun _ => ?_, hid⟩
    rwa [← (hR.booked.closesFrom h).open_owed hw]
  obtain ⟨⟨store, closing⟩, hclose⟩ := closeWindowIfOverdue_total
    (hR.weighted.of_roster h.unmoved.steady.roster) (hR.mirrored.closesFrom h).total_lt hw hopen
    hrange env
  exact ⟨store, closing, hclose, (h.settings.trans (overdue_settings hclose)).config⟩

namespace Chain

variable {c c₁ c' : Chain} {view : Deps} {w : UnbondWindow} {amount : Uint128} {token : ContractInfo}
  {fromAddr : Addr}

/-- What the contract holds and owes, and what it counts, stays in range with a request. -/
structure Countable (c : Chain) (w : UnbondWindow) (amount : Uint128) : Prop where
  money : c.worth + c.store.totals.scrtOwedUnbonding.val < 2 ^ 128
  burned : w.sharesBurned.val + amount.val < 2 ^ 128
  id : c.store.nextWindowId + 1 ≤ u64Max

/-- What a number of shares is worth. -/
def valueOf (c : Chain) (amount : Uint128) : ℕ := amount.val * c.assets / c.supply.val

/-! ## Pricing -/

/-- **Shares that are worth something are priced.** -/
theorem exists_price (hne : c.store.validators ≠ []) (hM : Mirror c) (hb : c.backing < 2 ^ 128)
    (hle : amount ≤ c.supply) (hpos : 0 < c.valueOf amount) (view : Deps) :
    ∃ st' owed, priceWithdrawal (c.deps view) c.env amount c.store = .ok (st', owed) ∧
      owed.val = c.valueOf amount ∧ owed.val + c.store.reserved ≤ c.backing := by
  have hsupply : c.supply.val ≠ 0 := fun hz => by
    rw [valueOf, hz, Nat.div_zero] at hpos
    omega
  have hassets : 0 < c.assets := Nat.pos_of_ne_zero fun hz => by
    rw [valueOf, hz, Nat.mul_zero, Nat.zero_div] at hpos
    omega
  have hamount : amount ≠ 0 := fun hz => by
    rw [valueOf, hz, Word.val_zero, Nat.zero_mul, Nat.zero_div] at hpos
    omega
  have hreserved : c.store.reserved < c.backing := by
    unfold assets at hassets
    omega
  -- no more than the assets is owed, since there are no more shares than the supply
  have hvalue : c.valueOf amount ≤ c.assets :=
    Nat.div_le_of_le_mul (Nat.mul_le_mul_right _ (Word.le_def.1 hle))
  have hfits : c.valueOf amount + c.store.reserved ≤ c.backing := by
    unfold assets at hvalue
    omega
  obtain ⟨st', pool, hpool, hsum⟩ := exists_pool hne hM.supply hb (by omega) view 0
  obtain ⟨hnet, hps⟩ := pricing_pool hM hpool
  rw [Word.val_zero, Nat.sub_zero] at hnet
  have hpay : assetsForShares amount pool = .ok ⟨c.valueOf amount, by omega⟩ := by
    obtain ⟨a, ha⟩ : ∃ a : Uint128, a.val = pool.net := ⟨⟨c.assets, by unfold assets; omega⟩, hnet.symm⟩
    have hne : pool.supply ≠ 0 := fun hz => hsupply (by rw [← hps, hz, Word.val_zero])
    unfold assetsForShares
    rw [if_neg hamount, if_neg hne, assets_eq_ok.2 ⟨hsum, ha⟩, ok_bind, mulDivFloor_eq_ok]
    refine ⟨by rwa [hps], ?_⟩
    rw [ha, hnet, hps]
    rfl
  have hprice : priceWithdrawal (c.deps view) c.env amount c.store = .ok (st', ⟨c.valueOf amount, _⟩) :=
    priceWithdrawal_eq_ok.2 ⟨pool, hpool, hpay⟩
  exact ⟨st', _, hprice, rfl, hfits⟩

/-- The token burns what the contract holds of it. -/
theorem exists_burn (hM : c.shareTotal = c.supply.val) (ht : c.store.config.token = some token)
    (hle : amount ≤ c.sharesOf c.self.address) :
    ∃ c', c.run (.token token (.burn amount none)) = some c' ∧ c'.store = c.store ∧
      c'.balance = c.balance ∧ c'.stakes = c.stakes := by
  have hheld := sharesOf_le (c := c) (u := c.self.address)
  have hle := Word.le_def.1 hle
  have hsupply : c.supply.sub? amount = some (c.supply.satSub amount) := by
    rw [Word.sub?_eq_some, Word.val_satSub]
    omega
  have hshares : (c.sharesOf c.self.address).sub? amount =
      some ((c.sharesOf c.self.address).satSub amount) := by
    rw [Word.sub?_eq_some, Word.val_satSub]
    omega
  have htake : ∃ c', ({ c with supply := c.supply.satSub amount } : Chain).take c.self.address amount =
      some c' ∧ c'.store = c.store ∧ c'.balance = c.balance ∧ c'.stakes = c.stakes := by
    refine ⟨{ c with
      supply := c.supply.satSub amount
      shares := c.shares.insert c.self.address ((c.sharesOf c.self.address).satSub amount) }, ?_,
      rfl, rfl, rfl⟩
    unfold take
    rw [show ({ c with supply := c.supply.satSub amount } : Chain).sharesOf c.self.address =
      c.sharesOf c.self.address from rfl, hshares]
    rfl
  obtain ⟨c', hc, hkeep⟩ := htake
  refine ⟨c', ?_, hkeep⟩
  simp only [run, if_pos ht, runToken, hsupply, Option.bind_eq_bind, Option.bind_some]
  exact hc

/-! ## Requests -/

/-- **A request for shares that are worth something goes through**, and so do its messages. -/
theorem receive_total (hR : Reachable c.store) (hM : Mirror c) (hback : c.backing = c.worth)
    (ht : c.store.config.token = some token)
    (hw : c.store.windows.lookup c.store.openWindow = some w) (hC : Countable c w amount)
    (hheld : amount ≤ c.sharesOf c.self.address) (hpos : 0 < c.valueOf amount) {u : Addr}
    (hv : view.addrValidate fromAddr = .ok u) :
    ∃ store resp c', executeReceive (c.deps view) c.env ⟨token.address, []⟩ fromAddr amount
        (some (.ok .unbond)) c.store = .ok (store, resp) ∧
      resp.messages.foldlM run { c with store := store } = some c' ∧
      ∃ owed est, resp.data = some (.unbond c.store.openWindow amount owed est) ∧
        owed.val = c.valueOf amount := by
  have hworth := hC.money
  have hshares := sharesOf_le (c := c) (u := c.self.address)
  have hle : amount ≤ c.supply := by
    have := Word.le_def.1 hheld
    have := hM.shares
    exact Word.le_def.2 (by omega)
  have hne : c.store.validators ≠ [] :=
    List.ne_nil_of_length_pos (Nat.zero_lt_of_lt hR.manned.cursor)
  have hnd : (c.store.validators.map (·.address)).Nodup := by
    rw [← addresses_eq]
    exact hR.slotted.distinct
  -- the price, and the window that the request joins
  obtain ⟨st₁, owed, hprice, howed, hfits⟩ := exists_price hne hM (by omega) hle hpos view
  have hrefresh : refreshTotals (c.deps view) c.env c.store = .ok st₁ := by
    obtain ⟨pool, hpool, -⟩ := priceWithdrawal_eq_ok.1 hprice
    exact (pricingPool_eq_ok.1 hpool).1
  have hstill : Still c.store st₁ := (refreshTotals_still hrefresh).1
  have hB₁ : Booked st₁ := hR.booked.still hstill
  have hw₁ : st₁.windows.lookup st₁.openWindow = some w :=
    (congrArg (fun q => q.windows.lookup q.openWindow) hstill.queue).trans hw
  have howes := hR.booked.open_owed hw
  have hopenFits : w.scrtOwed.val + owed.val < 2 ^ 128 := by
    unfold Storage.reserved at hfits
    omega
  obtain ⟨⟨st₂, w₂⟩, hjoin⟩ : ∃ r, joinWindow (c.deps view) fromAddr amount owed st₁ = .ok r :=
    joinWindow_total hB₁ hw₁ hv hC.burned hopenFits
  have howedne : owed ≠ 0 := fun hz => by
    rw [hz, Word.val_zero] at howed
    omega
  have hamount : amount ≠ 0 := fun hz => by
    rw [valueOf, hz, Word.val_zero, Nat.zero_mul, Nat.zero_div] at hpos
    omega
  have hreq : requestWithdrawal (c.deps view) c.env ⟨token.address, []⟩ fromAddr amount
      (some (.ok .unbond)) c.store = .ok (st₂, w₂, owed, token) := by
    unfold requestWithdrawal
    simp only [Config.boundToken, ht, orErr, ok_bind, ne_eq, not_true_eq_false, if_false, checkHook,
      if_neg hamount, hprice, if_neg howedne, hjoin]
    rfl
  -- the close that rides along
  have hcf : ClosesFrom c.store st₂ := .receive hreq
  obtain ⟨v, oo, -, -, hoo, hst₂⟩ := joinWindow_ok hjoin
  have howes₂ : st₂.totals.scrtOwedUnbonding.val + st₂.totals.scrtOwedOpen.val < 2 ^ 128 := by
    have hopenOwed : st₂.totals.scrtOwedOpen = oo := by rw [hst₂]
    have hunbonding : st₂.totals.scrtOwedUnbonding = c.store.totals.scrtOwedUnbonding := by
      rw [hst₂]
      exact hstill.owedUnbonding
    rw [hopenOwed, hunbonding, hoo, hstill.owedOpen]
    unfold Storage.reserved at hfits
    omega
  have hnext : st₂.nextWindowId = c.store.nextWindowId := by
    rw [hst₂]
    exact congrArg Queue.nextWindowId hstill.queue
  obtain ⟨store, closing, hclose, hconfig⟩ := hcf.closes hR howes₂ (hnext ▸ hC.id) c.env
  have hvals : st₂.validators = c.store.validators.map c.read := by
    have hsame : st₂.validators = st₁.validators := by rw [hst₂]
    rw [hsame, refreshed_set hrefresh]
  have hexec : executeReceive (c.deps view) c.env ⟨token.address, []⟩ fromAddr amount
      (some (.ok .unbond)) c.store = .ok (store, ⟨.token token (.burn amount none) :: closing,
        some (.unbond c.store.openWindow amount owed
          (satAdd64 w₂.closesAt store.config.params.unbondingPeriodSecs))⟩) := by
    unfold executeReceive
    rw [hreq, ok_bind]
    dsimp only
    rw [hclose]
    rfl
  -- its messages: the burn, and what the close undelegates
  obtain ⟨c₂, hburn, hstore, hbal, hstakes⟩ := exists_burn (c := { c with store := store }) hM.shares
    (hconfig ▸ ht) hheld
  have hstakeOf : c₂.stakeOf = c.stakeOf := (stakeOf_congr (c := c) hstakes).1
  obtain ⟨c', hrun⟩ : ∃ c', closing.foldlM run c₂ = some c' := by
    have hclose : closeWindowIfOverdue c.env st₂ = .ok (c₂.store, closing) := by rw [hclose, hstore]
    refine overdue_runs hclose ?_ ?_ ?_
    · rw [hvals, List.map_map]
      exact hnd
    · intro v hv
      rw [hvals] at hv
      obtain ⟨v, -, rfl⟩ := List.mem_map.1 hv
      rw [hstakeOf]
      exact Word.le_def.2 (Nat.le_refl _)
    · rw [hbal, (stakeOf_congr (c := c) hstakes).2.2]
      unfold worth at hworth
      dsimp only
      omega
  refine ⟨store, _, c', hexec, ?_, owed, _, rfl, howed⟩
  rw [List.foldlM_cons, hburn]
  exact hrun

/-- Shares that an account has can be moved to another. -/
theorem exists_move (hM : Mirror c) (hne : fromAddr ≠ c.self.address)
    (hle : amount ≤ c.sharesOf fromAddr) :
    ∃ c₁, c.move fromAddr c.self.address amount = some c₁ := by
  have hle := Word.le_def.1 hle
  have hsub : (c.sharesOf fromAddr).sub? amount = some ((c.sharesOf fromAddr).satSub amount) := by
    rw [Word.sub?_eq_some, Word.val_satSub]
    omega
  obtain ⟨c₁, htake⟩ : ∃ c₁, c.take fromAddr amount = some c₁ := by
    unfold take
    rw [hsub]
    exact ⟨_, rfl⟩
  -- both together hold no more than the supply
  obtain ⟨-, hsupply, hshares, htotal⟩ := take_ok htake
  have hself := hshares c.self.address
  rw [if_neg hne] at hself
  have hheld := sharesOf_le (c := c₁) (u := c.self.address)
  have hlt := c.supply.isLt
  have hmirror := hM.shares
  obtain ⟨held, hadd⟩ := Word.exists_add? (a := c₁.sharesOf c.self.address) (b := amount) (by omega)
  unfold move give
  rw [htake, Option.bind_eq_bind, Option.bind_some, hadd]
  exact ⟨_, rfl⟩

/-- What a request that went through was answered. -/
theorem send_answer {sender : Addr} {hook : Option Binary} {answer : Option ExecuteAnswer}
    (hR : c.Reaches) (hn : Next c (.send view sender fromAddr amount hook, answer) c') :
    ∃ owed est, answer = some (.unbond c.store.openWindow amount owed est) ∧ owed ≠ 0 ∧
      owed.val = c.valueOf amount := by
  rcases step_ok hn with ⟨c₁, _, _, _, store, resp, hen, he, -, rfl⟩ | ⟨-, ha⟩
  swap
  · cases ha
  have hM₁ := hen.mirror hR.mirror
  have hsupply := hen.token.1
  cases hen with
  | send hne ht hm =>
    rename_i token
    have he : executeReceive (c₁.deps view) c₁.env ⟨token.address, []⟩ fromAddr amount hook c₁.store =
      .ok (store, resp) := he
    unfold executeReceive at he
    simp only [bind_eq_ok, Prod.exists, pure_eq_ok, Prod.mk.injEq] at he
    obtain ⟨st₁, w, owed, token', ha, st₂, closing, -, rfl, rfl⟩ := he
    obtain ⟨st₀, -, -, -, howed, hprice, -⟩ := requestWithdrawal_ok ha
    have hval := withdrawal_owed hM₁ hprice
    have hassets : c₁.assets = c.assets := by
      rw [move_eq hm]
      rfl
    rw [hassets, hsupply] at hval
    rw [← (move_ok hm).1.store]
    exact ⟨owed, _, rfl, howed, hval⟩

/-- **The way out is never shut.** In any reachable state of a contract with a token, as long as its
numbers stay in range, shares sent back with the hook are taken exactly when the sender has them and
they are worth something. What they are worth is owed then, and they are gone: whatever has happened
to the pause, the slots, the weights and the delegations, and whether or not a window is overdue. -/
theorem exit_iff (hR : c.Reaches) (ht : c.store.config.token = some token)
    (hw : c.store.windows.lookup c.store.openWindow = some w) (hC : Countable c w amount)
    (hne : fromAddr ≠ c.self.address) {u : Addr} (hv : view.addrValidate fromAddr = .ok u)
    (sender : Addr) :
    ((∃ r, c.step (.send view sender fromAddr amount (some (.ok .unbond))) = some r) ↔
      amount ≤ c.sharesOf fromAddr ∧ 0 < c.valueOf amount) ∧
    ∀ c' answer, c.step (.send view sender fromAddr amount (some (.ok .unbond))) = some (c', answer) →
      (∃ owed est, answer = some (.unbond c.store.openWindow amount owed est) ∧
        owed.val = c.valueOf amount) ∧
      c'.supply.val + amount.val = c.supply.val ∧
      (c'.sharesOf fromAddr).val + amount.val = (c.sharesOf fromAddr).val := by
  have hsent : ∀ c' answer, c.step (.send view sender fromAddr amount (some (.ok .unbond))) =
      some (c', answer) → (c'.sharesOf fromAddr).val + amount.val = (c.sharesOf fromAddr).val ∧
        c'.supply.val + amount.val = c.supply.val := by
    intro c' answer hn
    obtain ⟨_, owed, _, -, hstep, hshares, -, -⟩ := next_send hR hn
    exact ⟨hshares, hstep.supply⟩
  refine ⟨⟨?_, ?_⟩, fun c' answer hn => ?_⟩
  · rintro ⟨⟨c', answer⟩, hn⟩
    obtain ⟨owed, _, -, howed, hval⟩ := send_answer hR hn
    obtain ⟨hshares, -⟩ := hsent c' answer hn
    have hpos : owed.val ≠ 0 := fun hz => howed (Word.eq_zero_iff.2 hz)
    exact ⟨Word.le_def.2 (by omega), by omega⟩
  · rintro ⟨hle, hpos⟩
    have hM := hR.mirror
    obtain ⟨c₁, hm⟩ := exists_move hM hne hle
    obtain ⟨hT, hsupply, -, hshares⟩ := move_ok hm
    have hself := hshares c.self.address
    rw [if_neg hne, if_pos rfl] at hself
    -- the shares that have been sent are the contract's, and nothing else has moved
    have hc₁ := move_eq hm
    have hen : Entered c (.send view sender fromAddr amount (some (.ok .unbond))) c₁ view
        ⟨token.address, []⟩ (.receive sender fromAddr amount (some (.ok .unbond))) := .send hne ht hm
    have hM₁ : Mirror c₁ := hen.mirror hM
    have hback : c₁.backing = c₁.worth := by
      rw [hc₁]
      exact hR.backing_eq
    have hC₁ : Countable c₁ w amount := by
      rw [hc₁]
      exact ⟨hC.money, hC.burned, hC.id⟩
    have hheld : amount ≤ c₁.sharesOf c₁.self.address := by
      rw [hT.self]
      exact Word.le_def.2 (by omega)
    have hpos₁ : 0 < c₁.valueOf amount := by
      rw [hc₁]
      exact hpos
    have hR₁ : Reachable c₁.store := hT.store ▸ hR.reachable
    obtain ⟨store, resp, c', hexec, hrun, -⟩ := receive_total hR₁ hM₁ hback (hT.store ▸ ht)
      (hT.store ▸ hw) hC₁ hheld hpos₁ hv
    refine ⟨(c', resp.data), ?_⟩
    unfold step
    dsimp only
    rw [if_neg hne, ht, Option.bind_eq_bind, Option.bind_some, hm, Option.bind_eq_bind,
      Option.bind_some]
    exact enter_eq hexec hrun
  · obtain ⟨hshares, hsupply⟩ := hsent c' answer hn
    obtain ⟨owed, est, ha, -, hval⟩ := send_answer hR hn
    exact ⟨⟨owed, est, ha, hval⟩, hsupply, hshares⟩

/-- A user deposits 100 SCRT, the manager pauses the contract, half of the delegation is slashed, and
the window falls overdue. -/
def devPaused : List ChainEvent := [devSeed, devEnter "user" (Uint128.new 100000000) .deposit,
  devEnter "manager" 0 (.setPaused true), .slash "validatortwo" (Uint128.new 50000000),
  .time (devStart + 6 * 86400)]

set_option maxRecDepth 10000 in
/-- The user still gets out. -/
theorem exit_iff_paused : ∃ c : Chain, c.Reaches ∧ c.store.config.paused = true ∧
    ∃ r, c.step (devSend "user" (Uint128.new 40000000)) = some r := by
  have hrun : (devChain.replay devPaused).map (fun s =>
      ((s.1.store.config.paused, s.1.store.config.token),
        (s.1.store.windows.lookup s.1.store.openWindow).map fun w =>
          decide (s.1.worth + s.1.store.totals.scrtOwedUnbonding.val < 2 ^ 128 ∧
            w.sharesBurned.val + 40000000 < 2 ^ 128 ∧ s.1.store.nextWindowId + 1 ≤ u64Max ∧
            "user" ≠ s.1.self.address ∧ Uint128.new 40000000 ≤ s.1.sharesOf "user" ∧
            0 < s.1.valueOf (Uint128.new 40000000)))) =
      some ((true, some ⟨"token", "tokenhash"⟩), some true) := by decide +kernel
  obtain ⟨⟨c, h⟩, hr, hs⟩ := Option.map_eq_some_iff.1 hrun
  simp only [Prod.mk.injEq, Option.map_eq_some_iff, decide_eq_true_eq] at hs
  obtain ⟨⟨hp, ht⟩, w, hw, hmoney, hburned, hid, hne, hle, hpos⟩ := hs
  have hR : c.Reaches := ⟨devChain, h, devChain_fresh, replay_ok hr⟩
  have hC : Countable c w (Uint128.new 40000000) := ⟨hmoney, hburned, hid⟩
  have hv : (devView 0 []).addrValidate "user" = .ok "user" := rfl
  exact ⟨c, hR, hp, (exit_iff hR ht hw hC hne hv "user").1.2 ⟨hle, hpos⟩⟩

end Chain

end LstCore
