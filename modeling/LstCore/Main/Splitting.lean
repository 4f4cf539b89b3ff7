import LstCore.Main.NoDilution

/-!
# Splitting never helps

A withdrawal or a deposit made in pieces, each priced against the pool that the piece before it
leaves, is a run of trades of a vault (`request_step`, `purchase_step`). What the rounding leaves
behind only raises the price of the pieces to come, so the pieces come to no more than the whole
(`splitting_never_helps`), and neither do the requests and deposits of the contract
(`Chain.splitting_requests`, `Chain.splitting_deposits`).
-/

namespace LstCore

open Lib

/-! ## Operations on a pool -/

namespace PoolTotals

/-- The pool as a vault. -/
def vault (p : PoolTotals) : Vault := ⟨p.net, p.supply.val⟩

/-- What shares are owed, and the pool without them: a request is owed from the pool, and its
shares are burned. -/
def request (p : PoolTotals) (shares : Uint128) : Exec (PoolTotals × Uint128) := do
  let owed ← assetsForShares shares p
  let owedBacked ← add p.owedBacked owed
  pure ({ p with owedBacked := owedBacked, supply := p.supply.satSub shares }, owed)

/-- The shares of a deposit, and the pool with them: the deposit is delegated. -/
def purchase (p : PoolTotals) (deposit : Uint128) : Exec (PoolTotals × Uint128) := do
  let shares ← sharesForDeposit deposit p
  let bonded ← add p.bonded deposit
  let supply ← add p.supply shares
  pure ({ p with bonded := bonded, supply := supply }, shares)

/-- An operation on each amount in turn, on the pool that the one before leaves: what each
yields. -/
def inTurn (op : PoolTotals → Uint128 → Exec (PoolTotals × Uint128)) :
    PoolTotals → List Uint128 → Exec (List Uint128)
  | _, [] => .ok []
  | p, amount :: amounts => do
    let (p, yielded) ← op p amount
    let rest ← inTurn op p amounts
    pure (yielded :: rest)

end PoolTotals

variable {p q : PoolTotals} {amount yielded whole : Uint128} {amounts : List Uint128}

/-- The sum of some amounts. -/
def sumVal (amounts : List Uint128) : ℕ := (amounts.map (·.val)).sum

@[simp] theorem sumVal_nil : sumVal [] = 0 := rfl

@[simp] theorem sumVal_cons (amount : Uint128) (amounts : List Uint128) :
    sumVal (amount :: amounts) = amount.val + sumVal amounts := rfl

/-- A pool that requests for some amounts can be made of. -/
structure Covers (p : PoolTotals) (amounts : List Uint128) : Prop where
  gross : p.bonded.val + p.pendingRewards.val + p.liquid.val < 2 ^ 128
  nonzero : ∀ amount ∈ amounts, amount ≠ 0
  within : sumVal amounts ≤ p.supply.val

/-- Shares within the supply are owed a part of the assets, rounded down. -/
theorem assetsForShares_of_le
    (hgross : p.bonded.val + p.pendingRewards.val + p.liquid.val < 2 ^ 128) (hne : amount ≠ 0)
    (hle : amount.val ≤ p.supply.val) : ∃ owed, assetsForShares amount p = .ok owed ∧
      owed.val = amount.val * p.net / p.supply.val ∧ owed.val ≤ p.net := by
  have hpos : 0 < amount.val := Nat.pos_of_ne_zero fun h => hne (Word.eq_zero_iff.2 h)
  have hsupply : p.supply ≠ 0 := fun h => by
    rw [Word.eq_zero_iff] at h
    omega
  have hnet : p.net < 2 ^ 128 := (Nat.sub_le _ _).trans_lt hgross
  have hworth : amount.val * p.net / p.supply.val ≤ p.net :=
    Nat.div_le_of_le_mul (Nat.mul_le_mul_right _ hle)
  refine ⟨⟨amount.val * p.net / p.supply.val, hworth.trans_lt hnet⟩, ?_, rfl, hworth⟩
  unfold assetsForShares
  rw [if_neg hne, if_neg hsupply, (assets_eq_ok (a := ⟨p.net, hnet⟩)).2 ⟨hgross, rfl⟩, ok_bind,
    mulDivFloor_eq_ok]
  exact ⟨by omega, rfl⟩

/-- **A request that the pool covers** is a trade of the vault, and leaves the pool covering the
rest. -/
theorem request_step (hc : Covers p (amount :: amounts)) : ∃ q owed, p.request amount = .ok (q, owed) ∧
    p.vault.Step (.withdraw amount.val owed.val) q.vault ∧ 0 < p.vault.supply ∧ Covers q amounts := by
  obtain ⟨hgross, hne, hwithin⟩ := hc
  rw [sumVal_cons] at hwithin
  have hamount := hne amount List.mem_cons_self
  have hpos : 0 < amount.val := Nat.pos_of_ne_zero fun h => hamount (Word.eq_zero_iff.2 h)
  obtain ⟨owed, ho, hval, hle⟩ := assetsForShares_of_le hgross hamount (by omega)
  -- what is owed was there, so that the debt still fits
  have hfits : p.owedBacked.val + owed.val < 2 ^ 128 := by
    have := p.owedBacked.isLt
    unfold PoolTotals.net at hle
    omega
  refine ⟨{ p with owedBacked := ⟨_, hfits⟩, supply := p.supply.satSub amount }, owed, ?_, ?_, ?_, ?_⟩
  · unfold PoolTotals.request
    simp only [bind_eq_ok, add_eq_ok, pure_eq_ok, Prod.mk.injEq]
    exact ⟨owed, ho, ⟨_, hfits⟩, rfl, rfl, rfl⟩
  · have hq : PoolTotals.vault { p with owedBacked := ⟨_, hfits⟩, supply := p.supply.satSub amount } =
        ⟨p.net - owed.val, p.supply.val - amount.val⟩ := by
      simp only [PoolTotals.vault, PoolTotals.net, Nat.sub_sub, Word.val_satSub]
    rw [hq]
    refine .withdraw (show amount.val ≤ p.supply.val by omega) ?_
    rw [hval]
    exact Nat.div_mul_le_self _ _
  · show 0 < p.supply.val
    omega
  · refine ⟨hgross, fun x hx => hne x (List.mem_cons_of_mem _ hx), ?_⟩
    show sumVal amounts ≤ p.supply.val - amount.val
    omega

/-- **A deposit into a pool with assets** is a trade of the vault. -/
theorem purchase_step (hsupply : p.supply ≠ 0) (hnet : p.net ≠ 0)
    (h : p.purchase amount = .ok (q, yielded)) :
    p.vault.Step (.deposit amount.val yielded.val) q.vault ∧ q.supply ≠ 0 ∧ q.net ≠ 0 := by
  unfold PoolTotals.purchase at h
  simp only [bind_eq_ok, add_eq_ok, pure_eq_ok, Prod.mk.injEq] at h
  obtain ⟨shares, hs, bonded, hb, supply, hsup, rfl, rfl⟩ := h
  have hval := sharesForDeposit_val hs
  rw [if_neg (not_or.2 ⟨hsupply, hnet⟩)] at hval
  have hq : PoolTotals.net { p with bonded := bonded, supply := supply } = p.net + amount.val := by
    unfold PoolTotals.net at hnet ⊢
    dsimp only
    omega
  refine ⟨?_, ?_, ?_⟩
  · rw [PoolTotals.vault, PoolTotals.vault, hq, hsup]
    exact .deposit hnet (hval ▸ Nat.div_mul_le_self _ _)
  · intro hz
    rw [Word.eq_zero_iff] at hz
    dsimp only at hz
    exact hsupply (Word.eq_zero_iff.2 (by omega))
  · rw [hq]
    omega

/-! ## Pieces and the whole -/

/-- Requests that the pool covers can be made, and are a run of withdrawals. -/
theorem requests_run : ∀ {amounts : List Uint128} {p : PoolTotals}, Covers p amounts →
    ∃ owed h v, PoolTotals.inTurn PoolTotals.request p amounts = .ok owed ∧
      Run (fun v t v' => Vault.Step v t v' ∧ t.Out ∧ 0 < v.supply) p.vault h v ∧
      (h.map Trade.owed).sum = sumVal owed ∧ (h.map Trade.burned).sum = sumVal amounts := by
  intro amounts
  induction amounts with
  | nil => exact fun _ => ⟨[], [], _, rfl, .nil, rfl, rfl⟩
  | cons amount amounts ih =>
    intro p hc
    obtain ⟨q, owed, hq, hs, hpos, hc'⟩ := request_step hc
    obtain ⟨rest, h, v, hrest, hr, howed, hburned⟩ := ih hc'
    refine ⟨owed :: rest, h ++ [.withdraw amount.val owed.val], v, ?_,
      (Run.single ⟨hs, trivial, hpos⟩).trans hr, ?_, ?_⟩
    · rw [PoolTotals.inTurn, hq, ok_bind]
      dsimp only
      rw [hrest, ok_bind]
      rfl
    · rw [List.map_append, List.sum_append, howed, sumVal_cons, Nat.add_comm]
      rfl
    · rw [List.map_append, List.sum_append, hburned, sumVal_cons, Nat.add_comm]
      rfl

/-- Deposits in turn are a run of deposits. -/
theorem purchases_run : ∀ {amounts minted : List Uint128} {p : PoolTotals}, p.supply ≠ 0 →
    p.net ≠ 0 → PoolTotals.inTurn PoolTotals.purchase p amounts = .ok minted →
    ∃ h v, Run (fun v t v' => Vault.Step v t v' ∧ t.Into) p.vault h v ∧
      (h.map Trade.minted).sum = sumVal minted ∧ (h.map Trade.paid).sum = sumVal amounts := by
  intro amounts
  induction amounts with
  | nil =>
    intro minted p _ _ h
    cases h
    exact ⟨[], _, .nil, rfl, rfl⟩
  | cons amount amounts ih =>
    intro minted p hsupply hnet h
    rw [PoolTotals.inTurn] at h
    simp only [bind_eq_ok, Prod.exists, pure_eq_ok] at h
    obtain ⟨q, shares, hq, rest, hrest, rfl⟩ := h
    obtain ⟨hs, hsupply', hnet'⟩ := purchase_step hsupply hnet hq
    obtain ⟨h, v, hr, hminted, hpaid⟩ := ih hsupply' hnet' hrest
    refine ⟨h ++ [.deposit amount.val shares.val], v, (Run.single ⟨hs, trivial⟩).trans hr, ?_, ?_⟩
    · rw [List.map_append, List.sum_append, hminted, sumVal_cons, Nat.add_comm]
      rfl
    · rw [List.map_append, List.sum_append, hpaid, sumVal_cons, Nat.add_comm]
      rfl

/-- **Splitting never helps.** From a pool with a supply and assets: withdrawals of shares within
the supply, each priced against the pool the one before leaves, can all be made, and are owed in
all no more than one withdrawal of their sum; and deposits mint in all no more than one deposit of
theirs. -/
theorem splitting_never_helps {assets total : Uint128} (hsupply : p.supply ≠ 0)
    (hassets : p.assets = .ok assets) (hpos : assets ≠ 0) (hne : ∀ amount ∈ amounts, amount ≠ 0)
    (htotal : total.val = sumVal amounts) :
    (total ≤ p.supply → ∃ owed, PoolTotals.inTurn PoolTotals.request p amounts = .ok owed ∧
      (amounts ≠ [] → ∃ whole, assetsForShares total p = .ok whole ∧ sumVal owed ≤ whole.val)) ∧
    ∀ minted whole, PoolTotals.inTurn PoolTotals.purchase p amounts = .ok minted →
      sharesForDeposit total p = .ok whole → sumVal minted ≤ whole.val := by
  obtain ⟨hgross, hnet⟩ := assets_eq_ok.1 hassets
  have hnz : p.net ≠ 0 := fun h => hpos (Word.eq_zero_iff.2 (hnet.trans h))
  refine ⟨fun hle => ?_, fun minted whole hm hw => ?_⟩
  · have hwithin : sumVal amounts ≤ p.supply.val := htotal ▸ hle
    obtain ⟨owed, h, v, howed, hr, hsum, hburned⟩ := requests_run ⟨hgross, hne, hwithin⟩
    refine ⟨owed, howed, fun hnil => ?_⟩
    -- the sum of positive amounts is not zero
    have htz : total ≠ 0 := by
      obtain ⟨amount, rest, rfl⟩ := List.exists_cons_of_ne_nil hnil
      intro hz
      rw [sumVal_cons, Word.eq_zero_iff.1 hz] at htotal
      exact hne amount List.mem_cons_self (Word.eq_zero_iff.2 (by omega))
    obtain ⟨whole, hwhole, hval, -⟩ := assetsForShares_of_le hgross htz hle
    refine ⟨whole, hwhole, ?_⟩
    rw [hval, htotal, ← hsum, ← hburned]
    exact Vault.withdrawals_le (Nat.pos_of_ne_zero fun h => hsupply (Word.eq_zero_iff.2 h)) hr
  · obtain ⟨h, v, hr, hsum, hpaid⟩ := purchases_run hsupply hnz hm
    have hval := sharesForDeposit_val hw
    rw [if_neg (not_or.2 ⟨hsupply, hnz⟩)] at hval
    rw [hval, htotal, ← hsum, ← hpaid]
    exact Vault.deposits_le (Nat.pos_of_ne_zero fun h => hsupply (Word.eq_zero_iff.2 h)) hnz hr

/-- A pool of 4 shares worth 10. -/
def devPool : PoolTotals := ⟨Uint128.new 10, 0, 0, 0, Uint128.new 4⟩

/-- One share after another of it are owed 2 and 2, and both at once 5. -/
theorem splitting_shares : ∃ owed whole,
    PoolTotals.inTurn PoolTotals.request devPool [Uint128.new 1, Uint128.new 1] = .ok owed ∧
      assetsForShares (Uint128.new 2) devPool = .ok whole ∧ sumVal owed ≤ whole.val := by
  have hsplit := @splitting_never_helps devPool [Uint128.new 1, Uint128.new 1]
    (Uint128.new 10) (Uint128.new 2) (by decide) (by decide +kernel) (by decide)
    (by decide) (by decide)
  obtain ⟨owed, howed, hwhole⟩ := hsplit.1 (by decide)
  obtain ⟨whole, hw, hle⟩ := hwhole (by decide)
  exact ⟨owed, whole, howed, hw, hle⟩

/-! ## On the chain -/

namespace Chain

variable {c c' : Chain} {h : List (ChainEvent × Option ExecuteAnswer)} {view : Deps} {st : Storage}
  {pool : PoolTotals} {total : Uint128}

/-- The pool that the chain would price on is its vault. -/
theorem pool_vault (hR : c.Reaches)
    (hp : pricingPool (c.deps view) c.env 0 c.store = .ok (st, pool)) : pool.vault = c.vault := by
  obtain ⟨hnet, hsupply⟩ := pricing_pool hR.mirror hp
  rw [PoolTotals.vault, vault, hnet, hsupply]
  rfl

/-- A run of trades is a run of the vault, along which there is a supply. -/
theorem trades_run {P : ChainEvent → Prop} (hR : c.Reaches) (ht : c.store.config.token ≠ none)
    (hP : ∀ e, P e → Trades e) (hr : Run (fun c e c' => Next c e c' ∧ P e.1) c h c') :
    Run (fun v t v' => Vault.Step v t v' ∧ (∃ e, P e.1 ∧ t = tradeOf e) ∧ 0 < v.supply) c.vault
      (h.map tradeOf) c'.vault := by
  suffices hsuff : Run (fun v t v' => Vault.Step v t v' ∧ (∃ e, P e.1 ∧ t = tradeOf e) ∧
      0 < v.supply) c.vault (h.map tradeOf) c'.vault ∧ c'.Reaches ∧ c'.store.config.token ≠ none from
    hsuff.1
  induction hr with
  | nil => exact ⟨.nil, hR, ht⟩
  | cons _ hs ih =>
    obtain ⟨hrun, hR₁, ht₁⟩ := ih
    exact ⟨hrun.cons ⟨(trade_step hR₁ ht₁ (hP _ hs.2) hs.1).1, ⟨_, hs.2, rfl⟩, hR₁.supply_pos ht₁⟩,
      hR₁.next hs.1, Next.bound hR₁ hs.1 ht₁⟩

/-- Requests, at any times. -/
def Requests : ChainEvent → Prop
  | .send .. | .time _ => True
  | _ => False

/-- Deposits, at any times. -/
def Deposits : ChainEvent → Prop
  | .call _ _ .deposit | .time _ => True
  | _ => False

theorem Requests.trades {e : ChainEvent} (he : Requests e) : Trades e := by
  cases e <;> trivial

theorem Deposits.trades {e : ChainEvent} (he : Deposits e) : Trades e := by
  cases e with
  | call view info msg => cases msg <;> trivial
  | time => trivial
  | _ => cases he

theorem Requests.out {e : ChainEvent × Option ExecuteAnswer} (he : Requests e.1) :
    (tradeOf e).Out := by
  obtain ⟨e, answer⟩ := e
  cases e with
  | send =>
    rcases answer with - | answer
    · trivial
    · cases answer <;> trivial
  | time => cases answer <;> trivial
  | _ => cases he

theorem Deposits.into {e : ChainEvent × Option ExecuteAnswer} (he : Deposits e.1) :
    (tradeOf e).Into := by
  obtain ⟨e, answer⟩ := e
  cases e with
  | call view info msg =>
    cases msg with
    | deposit =>
      rcases answer with - | answer
      · trivial
      · cases answer <;> trivial
    | _ => cases he
  | time => cases answer <;> trivial
  | _ => cases he

/-- **Requests in turn** are owed no more than one request of their shares at the start. -/
theorem splitting_requests (hR : c.Reaches) (ht : c.store.config.token ≠ none)
    (hr : Run (fun c e c' => Next c e c' ∧ Requests e.1) c h c')
    (hp : pricingPool (c.deps view) c.env 0 c.store = .ok (st, pool))
    (htotal : total.val = ((h.map tradeOf).map Trade.burned).sum)
    {whole : Uint128} (hw : assetsForShares total pool = .ok whole) :
    ((h.map tradeOf).map Trade.owed).sum ≤ whole.val := by
  have hrun : Run (fun v t v' => Vault.Step v t v' ∧ t.Out ∧ 0 < v.supply) c.vault
      (h.map tradeOf) c'.vault := by
    refine (trades_run hR ht (fun _ => Requests.trades) hr).mono ?_
    rintro v t v' ⟨hs, ⟨e, he, rfl⟩, hpos⟩
    exact ⟨hs, he.out, hpos⟩
  have hval := assetsForShares_val hw
  rw [if_neg ((pricing_pool hR.mirror hp).2 ▸ hR.supply_ne ht)] at hval
  rw [← pool_vault hR hp] at hrun
  rw [hval, htotal]
  exact Vault.withdrawals_le (pool_vault hR hp ▸ hR.supply_pos ht) hrun

/-- **Deposits in turn** mint no more than one deposit of their sum at the start. -/
theorem splitting_deposits (hR : c.Reaches) (ht : c.store.config.token ≠ none) (hne : c.assets ≠ 0)
    (hr : Run (fun c e c' => Next c e c' ∧ Deposits e.1) c h c')
    (hp : pricingPool (c.deps view) c.env 0 c.store = .ok (st, pool))
    (htotal : total.val = ((h.map tradeOf).map Trade.paid).sum)
    {whole : Uint128} (hw : sharesForDeposit total pool = .ok whole) :
    ((h.map tradeOf).map Trade.minted).sum ≤ whole.val := by
  have hrun : Run (fun v t v' => Vault.Step v t v' ∧ t.Into) c.vault (h.map tradeOf) c'.vault := by
    refine (trades_run hR ht (fun _ => Deposits.trades) hr).mono ?_
    rintro v t v' ⟨hs, ⟨e, he, rfl⟩, -⟩
    exact ⟨hs, he.into⟩
  have hnet : pool.net ≠ 0 := by
    have heq : pool.net = c.assets := congrArg Vault.assets (pool_vault hR hp)
    rw [heq]
    exact hne
  have hval := sharesForDeposit_val hw
  rw [if_neg (not_or.2 ⟨(pricing_pool hR.mirror hp).2 ▸ hR.supply_ne ht, hnet⟩)] at hval
  rw [← pool_vault hR hp] at hrun
  rw [hval, htotal]
  exact Vault.deposits_le (pool_vault hR hp ▸ hR.supply_pos ht) hnet hrun

end Chain

end LstCore
