import LstCore.Lib.Vault
import LstCore.Proof.Assets

/-!
# No profit and no dilution

A deposit and a request are trades of a vault whose assets are those of the pool (`next_deposit`,
`next_send`), whatever window they close. So along any run of them the assets per share never fall,
and an account alone in trading is never booked more than it deposits (`no_dilution`).
-/

namespace LstCore

open Lib

/-! ## What claims are for -/

/-- What is booked for an account in its claims. -/
def Queue.bookedFor (q : Queue) (u : Addr) : ℕ :=
  q.claims.total fun k r => if k.1 = u then r.scrtOwed.val else 0

/-- **A request books what it is owed**, for one account. -/
theorem Queue.bookedFor_join {q q' : Queue} {v : Addr} {shares owed : Uint128}
    (hs : Queue.Step q (.join v shares owed) q') (u : Addr) :
    q'.bookedFor u ≤ q.bookedFor u + owed.val := by
  unfold Queue.bookedFor
  cases hs with
  | joinNew hw hopen hc hsb hso =>
    rw [Keymap.total_insert_new hc]
    split <;> simp
  | joinOld hw hopen hc hsb hso hcsb hcso =>
    rename_i csb cso w r
    have := Keymap.total_insert_old (f := fun (k : Addr × ℕ) (r : ClaimRecord) =>
      if k.1 = u then r.scrtOwed.val else 0) hc (v := { r with sharesBurned := csb, scrtOwed := cso })
    dsimp only at this ⊢
    split at this <;> omega

theorem Queue.bookedFor_close {q q' : Queue} {now maturesAt windowSecs : ℕ} {used : List String}
    (hs : Queue.Step q (.close now maturesAt windowSecs used) q') (u : Addr) :
    q'.bookedFor u = q.bookedFor u := by
  cases hs <;> rfl

variable {deps : Deps} {env : Env} {info : MessageInfo} {st st' : Storage} {resp : Response}

theorem overdue_booked {closing : List CosmosMsg}
    (h : closeWindowIfOverdue env st = .ok (st', closing)) (u : Addr) :
    st'.queue.bookedFor u = st.queue.bookedFor u := by
  rcases closeWindowIfOverdue_ok h with ⟨rfl, -⟩ | ⟨w, closing, hw, hopen, hdue, hc, -⟩
  · rfl
  · obtain ⟨used, -, -, hstep⟩ := closeOpenWindow_ok hw hopen hdue hc
    exact Queue.bookedFor_close hstep u

/-! ## What the messages mint -/

/-- What the messages mint to an account. -/
def mintedFor (u : Addr) (messages : List CosmosMsg) : ℕ := (messages.map (·.mintedTo u)).sum

theorem mintedFor_append (u : Addr) (messages l : List CosmosMsg) :
    mintedFor u (messages ++ l) = mintedFor u messages + mintedFor u l := by
  simp [mintedFor]

theorem mintedFor_le (u : Addr) (messages : List CosmosMsg) :
    mintedFor u messages ≤ mintedBy messages := by
  refine List.sum_le_sum fun m _ => ?_
  cases m with
  | token token msg =>
    cases msg with
    | mint recipient amount memo =>
      simp only [CosmosMsg.mintedTo, CosmosMsg.minted]
      split
      · exact Nat.le_refl _
      · exact Nat.zero_le _
    | burn | registerReceive => exact Nat.le_refl _
  | _ => exact Nat.le_refl _

namespace Chain

variable {c c' c₁ : Chain} {view : Deps} {answer : Option ExecuteAnswer}

/-- The pool as a vault. -/
def vault (c : Chain) : Vault := ⟨c.assets, c.supply.val⟩

theorem Reaches.assets_eq (h : c.Reaches) : c.assets = c.worth - c.store.reserved := by
  rw [assets, h.backing_eq]

theorem Still.reserved (h : Still st st') : st'.reserved = st.reserved := by
  rw [Storage.reserved, Storage.reserved, h.owedOpen, h.owedMatured]

/-- **A deposit is a trade of the vault.** -/
theorem next_deposit (hR : c.Reaches) (hpos : c.supply ≠ 0)
    (hn : Next c (.call view info .deposit, answer) c') :
    ∃ deposit shares, answer = some (.deposit deposit shares) ∧
      c.vault.Step (.deposit deposit.val shares.val) c'.vault ∧
      (∀ u, (c'.sharesOf u).val =
        (c.sharesOf u).val + if info.sender = u then shares.val else 0) ∧
      (∀ u, c'.store.queue.bookedFor u = c.store.queue.bookedFor u) ∧
      shares.val = (if c.assets = 0 then deposit.val
        else deposit.val * c.supply.val / c.assets) := by
  have hR' := hR.next hn
  rcases step_ok hn with ⟨c₁, _, _, _, store, resp, hen, he, hr, rfl⟩ | ⟨-, ha⟩
  swap
  · cases ha
  have hM := hR.mirror
  have hM₁ := hen.mirror hM
  cases hen with
  | call hs hb =>
    rename_i b
    have he : executeDeposit (deps { c with balance := b } view) c.env info c.store =
      .ok (store, resp) := he
    unfold executeDeposit at he
    simp only [bind_eq_ok, Prod.exists, pure_eq_ok, Prod.mk.injEq] at he
    obtain ⟨st₁, deposit, shares, messages, ha, st₂, closing, hc, rfl, rfl⟩ := he
    obtain ⟨d, rfl, rfl⟩ := acceptDeposit_ok ha
    have hB₁ := hR.reachable.booked.closesFrom (.deposit ha)
    have hran := runs_ok hr
    have hstore : c'.store = st₂ := hran.store
    obtain ⟨hsame, hmint, hburn⟩ := overdue_supply hc
    -- the assets: the deposit comes in, and a closing takes from both sides
    have hfunds := exactFunds_amount d.funded
    have hworth : c'.worth + leavingBy c.self.address st₂.config.bondedDenom (d.messages ++ closing) =
        c.bonded + c.held + b.val := hran.worth
    have howed := overdue_reserved hB₁ hc c.self.address st₂.config.bondedDenom
    have hres : d.next.reserved = c.store.reserved := Still.reserved d.still
    have hzero : leavingBy c.self.address st₂.config.bondedDenom d.messages = 0 := by
      simp [Deposited.messages, delegateMsg, CosmosMsg.leaving]
    rw [leavingBy_append, hzero, Nat.zero_add] at hworth
    have hassets := hR.assets_eq
    have hassets' := hR'.assets_eq
    rw [hstore] at hassets'
    unfold worth at hassets
    -- the supply
    have hsup : c'.supply.val + burnedBy (d.messages ++ closing) =
        c.supply.val + mintedBy (d.messages ++ closing) := hran.supply
    simp only [burnedBy_append, mintedBy_append, hmint, hburn, Deposited.messages, delegateMsg,
      burnedBy_cons, burnedBy_nil, mintedBy_cons, mintedBy_nil, CosmosMsg.burned, CosmosMsg.minted] at hsup
    -- the price
    obtain ⟨hpool, hshares⟩ := priceDeposit_eq_ok.1 d.price
    obtain ⟨hnet, hps⟩ := pricing_pool (c := { c with balance := b }) hM₁ hpool
    have hval := sharesForDeposit_val hshares
    have hnet : d.pool.net = c.assets := by
      rw [hnet]
      show _ + _ + (b.val - deposit.val) - _ = c.backing - _
      rw [show b.val - deposit.val = c.balance.val by omega]
      rfl
    rw [hps, hnet] at hval
    simp only [hpos, false_or] at hval
    refine ⟨deposit, shares, rfl, ?_, fun u => ?_, fun u => ?_, hval⟩
    · have hv : c'.vault = ⟨c'.assets, c.supply.val + shares.val⟩ := by
        rw [vault, Vault.mk.injEq]
        exact ⟨rfl, by omega⟩
      rw [hv]
      by_cases hz : c.assets = 0
      · rw [if_pos hz] at hval
        rw [hval]
        exact .refill hz (by omega)
      · rw [if_neg hz] at hval
        rw [show c'.assets = c.assets + deposit.val by omega]
        exact .deposit hz (hval ▸ Nat.div_mul_le_self _ _)
    · have hu := hran.sharesOf u
      have hu : (c'.sharesOf u).val +
            (if c.self.address = u then burnedBy (d.messages ++ closing) else 0) =
          (c.sharesOf u).val + mintedFor u (d.messages ++ closing) := hu
      have hd : mintedFor u d.messages = if info.sender = u then shares.val else 0 := by
        simp [mintedFor, Deposited.messages, delegateMsg, CosmosMsg.mintedTo]
      have hnone : burnedBy (d.messages ++ closing) = 0 := by
        rw [burnedBy_append, hburn]
        simp [Deposited.messages, delegateMsg, CosmosMsg.burned]
      have hle := mintedFor_le u closing
      rw [hnone, ite_self, mintedFor_append, hd] at hu
      omega
    · rw [hstore, overdue_booked hc u]
      exact congrArg (Queue.bookedFor · u) d.still.queue

/-- **A request is a trade of the vault.** -/
theorem next_send {sender fromAddr : Addr} {amount : Uint128} {hook : Option Binary} (hR : c.Reaches)
    (hn : Next c (.send view sender fromAddr amount hook, answer) c') :
    ∃ id owed time, answer = some (.unbond id amount owed time) ∧
      c.vault.Step (.withdraw amount.val owed.val) c'.vault ∧
      (c'.sharesOf fromAddr).val + amount.val = (c.sharesOf fromAddr).val ∧
      (∀ u, c'.store.queue.bookedFor u ≤ c.store.queue.bookedFor u + owed.val) ∧
      owed.val = amount.val * c.assets / c.supply.val := by
  have hR' := hR.next hn
  rcases step_ok hn with ⟨c₁, _, _, _, store, resp, hen, he, hr, rfl⟩ | ⟨-, ha⟩
  swap
  · cases ha
  have hM := hR.mirror
  have hM₁ := hen.mirror hM
  have hsup₁ := hen.token.1
  cases hen with
  | send hne ht hm =>
    rename_i token
    obtain ⟨hT, -, -, hu₁⟩ := move_ok hm
    have he : executeReceive (c₁.deps view) c₁.env ⟨token.address, []⟩ fromAddr amount hook c₁.store =
      .ok (store, resp) := he
    unfold executeReceive at he
    simp only [bind_eq_ok, Prod.exists, pure_eq_ok, Prod.mk.injEq] at he
    obtain ⟨st₁, w, owed, token', ha, st₂, closing, hc, rfl, rfl⟩ := he
    have hB₁ : Booked st₁ := Booked.closesFrom (hT.store ▸ hR.reachable.booked) (.receive ha)
    have hran := runs_ok hr
    have hstore : c'.store = st₂ := hran.store
    obtain ⟨hsame, hmint, hburn⟩ := overdue_supply hc
    obtain ⟨st₀, -, -, hq, -, hprice, hj⟩ := requestWithdrawal_ok ha
    obtain ⟨pool, hpool, -⟩ := priceWithdrawal_eq_ok.1 hprice
    obtain ⟨v, oo, -, hstep, hoo, hst₁⟩ := joinWindow_ok hj
    have hstill := (refreshTotals_still (pricingPool_eq_ok.1 hpool).1).1
    -- the assets: what is owed is set aside, and a closing takes from both sides
    have hworth : c'.worth + leavingBy c₁.self.address st₂.config.bondedDenom
        (.token token' (.burn amount none) :: closing) = c₁.worth := hran.worth
    have hwc : c₁.worth = c.worth := by
      obtain ⟨-, hbonded, hheld⟩ := stakeOf_congr hT.stakes
      rw [worth, worth, hbonded, hheld, hT.balance]
    have hres := overdue_reserved hB₁ hc c₁.self.address st₂.config.bondedDenom
    have hres₁ : st₁.reserved = c.store.reserved + owed.val := by
      have h₀ : st₀.reserved = c.store.reserved := by rw [Still.reserved hstill, hT.store]
      have hopen : st₁.totals.scrtOwedOpen = oo := by rw [hst₁]
      have hmatured : st₁.totals.scrtOwedMatured = st₀.totals.scrtOwedMatured := by rw [hst₁]
      rw [← h₀, Storage.reserved, Storage.reserved, hopen, hmatured, hoo]
      omega
    have hzero : leavingBy c₁.self.address st₂.config.bondedDenom
        (.token token' (.burn amount none) :: closing) =
          leavingBy c₁.self.address st₂.config.bondedDenom closing := by
      simp [CosmosMsg.leaving]
    rw [hzero, hwc] at hworth
    have hassets := hR.assets_eq
    have hassets' := hR'.assets_eq
    rw [hstore] at hassets'
    -- the supply
    have hsup : c'.supply.val + burnedBy (.token token' (.burn amount none) :: closing) =
        c₁.supply.val + mintedBy (.token token' (.burn amount none) :: closing) := hran.supply
    simp only [burnedBy_cons, mintedBy_cons, hmint, hburn, hsup₁, CosmosMsg.burned,
      CosmosMsg.minted] at hsup
    -- the price
    have hval := withdrawal_owed hM₁ hprice
    have hassets₁ : c₁.assets = c.assets := by
      rw [move_eq hm]
      rfl
    rw [hassets₁, hsup₁] at hval
    refine ⟨_, owed, _, rfl, ?_, ?_, fun u => ?_, hval⟩
    · have hv : c'.vault = ⟨c.assets - owed.val, c.supply.val - amount.val⟩ := by
        rw [vault, Vault.mk.injEq]
        exact ⟨by omega, by omega⟩
      rw [hv]
      refine .withdraw (show amount.val ≤ c.supply.val by omega) ?_
      rw [hval]
      exact Nat.div_mul_le_self _ _
    · have hself : c₁.self.address ≠ fromAddr := hT.self ▸ Ne.symm hne
      have hu := hran.sharesOf fromAddr
      have hu : (c'.sharesOf fromAddr).val + 0 = (c₁.sharesOf fromAddr).val +
          mintedFor fromAddr (.token token' (.burn amount none) :: closing) :=
        (if_neg hself ▸ hu :)
      have hle := mintedFor_le fromAddr (.token token' (.burn amount none) :: closing)
      simp only [mintedBy_cons, hmint, CosmosMsg.minted] at hle
      have hmove := hu₁ fromAddr
      rw [if_pos rfl, if_neg (Ne.symm hne)] at hmove
      omega
    · rw [hstore, overdue_booked hc u]
      refine (Queue.bookedFor_join hstep u).trans ?_
      rw [hstill.queue, hT.store]

/-! ## Runs -/

/-- Deposits and requests, at any times. -/
def Trades : ChainEvent → Prop
  | .call _ _ .deposit | .send .. | .time _ => True
  | _ => False

/-- Those of one account. -/
def TradesOf (u : Addr) : ChainEvent → Prop
  | .call _ info .deposit => info.sender = u
  | .send _ _ fromAddr _ _ => fromAddr = u
  | .time _ => True
  | _ => False

theorem TradesOf.trades {u : Addr} {e : ChainEvent} (h : TradesOf u e) : Trades e := by
  cases e with
  | call view info msg => cases msg <;> trivial
  | send | time => trivial
  | _ => cases h

/-- What an event deposits. -/
def depositIn : ChainEvent × Option ExecuteAnswer → ℕ
  | (.call _ _ .deposit, some (.deposit deposit _)) => deposit.val
  | _ => 0

/-- What it books for a request. -/
def bookedIn : ChainEvent × Option ExecuteAnswer → ℕ
  | (.send .., some (.unbond _ _ owed _)) => owed.val
  | _ => 0

/-- The trade that it is. -/
def tradeOf : ChainEvent × Option ExecuteAnswer → Trade
  | (.call _ _ .deposit, some (.deposit deposit shares)) => .deposit deposit.val shares.val
  | (.send .., some (.unbond _ amount owed _)) => .withdraw amount.val owed.val
  | _ => .pass

theorem Reaches.supply_pos (hR : c.Reaches) (ht : c.store.config.token ≠ none) :
    0 < c.vault.supply := by
  have hseed := hR.seeded ht
  have hle : c.own ≤ c.supply.val := hR.mirror.shares ▸ sharesOf_le
  have hmin : 0 < minBootstrapSeed := by decide
  show 0 < c.supply.val
  omega

theorem Reaches.supply_ne (hR : c.Reaches) (ht : c.store.config.token ≠ none) : c.supply ≠ 0 := by
  intro hz
  have := hR.supply_pos ht
  rw [vault, hz] at this
  exact absurd this (Nat.lt_irrefl 0)

/-- **An event of the sequence is a trade of the vault**, and books no more than it says. -/
theorem trade_step {e : ChainEvent × Option ExecuteAnswer} (hR : c.Reaches)
    (ht : c.store.config.token ≠ none) (he : Trades e.1) (hn : Next c e c') :
    c.vault.Step (tradeOf e) c'.vault ∧
      ∀ u, c'.store.queue.bookedFor u ≤ c.store.queue.bookedFor u + bookedIn e := by
  obtain ⟨e, answer⟩ := e
  have hpos := hR.supply_ne ht
  cases e with
  | call view info msg =>
    cases msg with
    | deposit =>
      obtain ⟨deposit, shares, rfl, hs, -, hb, -⟩ := next_deposit hR hpos hn
      exact ⟨hs, fun u => (hb u).le⟩
    | _ => cases he
  | send view sender fromAddr amount hook =>
    obtain ⟨id, owed, time, rfl, hs, -, hb, -⟩ := next_send hR hn
    exact ⟨hs, hb⟩
  | time now =>
    rcases step_ok hn with ⟨_, _, _, _, _, _, hen, -⟩ | ⟨rfl, ha⟩
    · cases hen
    · cases ha
      exact ⟨.pass, fun u => Nat.le_refl _⟩
  | _ => cases he

/-- **An event of the account alone moves its position** as the trade does. -/
theorem position_step {e : ChainEvent × Option ExecuteAnswer} {u : Addr} {paid booked : ℕ}
    (hR : c.Reaches) (ht : c.store.config.token ≠ none) (he : TradesOf u e.1) (hn : Next c e c') :
    Position.Step ⟨(c.sharesOf u).val, paid, booked⟩ (tradeOf e)
      ⟨(c'.sharesOf u).val, depositIn e + paid, bookedIn e + booked⟩ := by
  obtain ⟨e, answer⟩ := e
  have hpos := hR.supply_ne ht
  cases e with
  | call view info msg =>
    cases msg with
    | deposit =>
      obtain ⟨deposit, shares, rfl, -, hs, -⟩ := next_deposit hR hpos hn
      obtain rfl : info.sender = u := he
      rw [hs, if_pos rfl]
      simp only [depositIn, bookedIn, tradeOf, Nat.zero_add, Nat.add_comm deposit.val]
      exact .deposit
    | _ => cases he
  | send view sender fromAddr amount hook =>
    obtain ⟨id, owed, time, rfl, -, hs, -⟩ := next_send hR hn
    obtain rfl : fromAddr = u := he
    rw [show (c'.sharesOf fromAddr).val = (c.sharesOf fromAddr).val - amount.val by omega]
    simp only [depositIn, bookedIn, tradeOf, Nat.zero_add, Nat.add_comm owed.val]
    exact .withdraw (show amount.val ≤ (c.sharesOf fromAddr).val by omega)
  | time now =>
    rcases step_ok hn with ⟨_, _, _, _, _, _, hen, -⟩ | ⟨rfl, ha⟩
    · cases hen
    · cases ha
      simp only [depositIn, bookedIn, tradeOf, Nat.zero_add]
      exact .pass
  | _ => cases he

/-- **No profit and no dilution.** From any state after the bootstrap, a run of deposits and
requests, by any accounts and at any times, does not lower the assets per share; and if one account
makes all of them, starting without shares, its requests are booked for no more than it deposits,
and no claim grows by more. -/
theorem no_dilution (hR : c.Reaches) (ht : c.store.config.token ≠ none) :
    (∀ c' h, Run (fun c e c' => Next c e c' ∧ Trades e.1) c h c' →
      c.assets * c'.supply.val ≤ c'.assets * c.supply.val) ∧
    ∀ u c' h, (c.sharesOf u).val = 0 → Run (fun c e c' => Next c e c' ∧ TradesOf u e.1) c h c' →
      (h.map bookedIn).sum ≤ (h.map depositIn).sum ∧
      ∀ v, c'.store.queue.bookedFor v ≤ c.store.queue.bookedFor v + (h.map depositIn).sum := by
  refine ⟨fun c' h hr => ?_, fun u c' h hzero hr => ?_⟩
  · suffices hsuff : Run (fun v t v' => Vault.Step v t v' ∧ 0 < v'.supply) c.vault (h.map tradeOf)
        c'.vault ∧ c'.Reaches ∧ c'.store.config.token ≠ none from
      Vault.price_run (hR.supply_pos ht) hsuff.1
    induction hr with
    | nil => exact ⟨.nil, hR, ht⟩
    | cons _ hs ih =>
      obtain ⟨hrun, hR₁, ht₁⟩ := ih
      have hR₂ := hR₁.next hs.1
      have ht₂ := Next.bound hR₁ hs.1 ht₁
      exact ⟨hrun.cons ⟨(trade_step hR₁ ht₁ hs.2 hs.1).1, hR₂.supply_pos ht₂⟩, hR₂, ht₂⟩
  · suffices hsuff : Run Vault.Solo (c.vault, ⟨0, 0, 0⟩) (h.map tradeOf)
        (c'.vault, ⟨(c'.sharesOf u).val, (h.map depositIn).sum, (h.map bookedIn).sum⟩) ∧
        (∀ v, c'.store.queue.bookedFor v ≤ c.store.queue.bookedFor v + (h.map bookedIn).sum) ∧
        c'.Reaches ∧ c'.store.config.token ≠ none by
      obtain ⟨hrun, hbooked, -⟩ := hsuff
      have hle : (h.map bookedIn).sum ≤ (h.map depositIn).sum :=
        Vault.no_profit (hR.supply_pos ht) hrun
      exact ⟨hle, fun v => (hbooked v).trans (Nat.add_le_add_left hle _)⟩
    induction hr with
    | nil =>
      rw [hzero]
      exact ⟨.nil, fun v => Nat.le_refl _, hR, ht⟩
    | cons _ hs ih =>
      obtain ⟨hrun, hbooked, hR₁, ht₁⟩ := ih
      have hR₂ := hR₁.next hs.1
      have ht₂ := Next.bound hR₁ hs.1 ht₁
      obtain ⟨hvault, hb⟩ := trade_step hR₁ ht₁ hs.2.trades hs.1
      simp only [List.map_cons, List.sum_cons]
      refine ⟨hrun.cons ⟨hvault, position_step hR₁ ht₁ hs.2 hs.1, hR₂.supply_pos ht₂⟩, fun v => ?_,
        hR₂, ht₂⟩
      have := hb v
      have := hbooked v
      omega

set_option maxRecDepth 10000 in
/-- The seed of 10 SCRT earns 1, and then a user deposits 100, sends half of them back as shares,
and deposits 7 once the window is due. -/
theorem no_dilution_traded : ∃ (c c' : Chain) (h : List (ChainEvent × Option ExecuteAnswer)),
    (c.assets = 11000000 ∧ c.supply.val = 10000000) ∧
    ((h.map bookedIn).sum = 55000000 ∧ (h.map depositIn).sum = 107000000) ∧
    c.assets * c'.supply.val ≤ c'.assets * c.supply.val ∧
    (h.map bookedIn).sum ≤ (h.map depositIn).sum := by
  have hrun : (devChain.replay [devSeed, .accrue "validatorone" (Uint128.new 1000000)]).bind (fun s =>
        (s.1.replay [devEnter "user" (Uint128.new 100000000) .deposit,
          devSend "user" (Uint128.new 50000000), .time (devStart + 432000),
          devEnter "user" (Uint128.new 7000000) .deposit]).map fun r =>
        ((s.1.assets, s.1.supply.val), ((r.2.map bookedIn).sum, (r.2.map depositIn).sum),
          (s.1.sharesOf "user").val, s.1.store.config.token.isSome)) =
      some ((11000000, 10000000), (55000000, 107000000), 0, true) := by decide +kernel
  obtain ⟨⟨c, h₀⟩, hc, hrun⟩ := Option.bind_eq_some_iff.1 hrun
  obtain ⟨⟨c', h⟩, hc', hs⟩ := Option.map_eq_some_iff.1 hrun
  simp only [Prod.mk.injEq] at hs
  obtain ⟨⟨hassets, hsupply⟩, ⟨hbooked, hdeposited⟩, hzero, hbound⟩ := hs
  have hR : c.Reaches := ⟨devChain, h₀, devChain_fresh, replay_ok hc⟩
  have hev : ∀ e ∈ h, TradesOf "user" e.1 := by
    intro e he
    have hmem : e.1 ∈ h.map (·.1) := List.mem_map_of_mem he
    rw [replay_events hc'] at hmem
    simp only [List.reverse_cons, List.reverse_nil, List.nil_append, List.cons_append, List.mem_cons,
      List.not_mem_nil, or_false] at hmem
    rcases hmem with heq | heq | heq | heq <;> rw [heq] <;> first | rfl | trivial
  have htrades : Run (fun c e c' => Next c e c' ∧ TradesOf "user" e.1) c h c' :=
    (replay_ok hc').mono_of_mem fun _ e _ he hn => ⟨hn, hev e he⟩
  have hdil := no_dilution hR (Option.isSome_iff_ne_none.1 hbound)
  exact ⟨c, c', h, ⟨hassets, hsupply⟩, ⟨hbooked, hdeposited⟩,
    hdil.1 c' h (htrades.mono fun _ _ _ hn => ⟨hn.1, hn.2.trades⟩),
    (hdil.2 "user" c' h hzero htrades).1⟩

end Chain

end LstCore
