import LstCore.Main.Coverage
import LstCore.Main.Exits
import LstCore.Main.Placement

/-!
# The way in

A deposit is refused for four reasons and no other: the contract is paused, the deposit is below the
minimum, it buys no share at the present price, or the shares would pass the cap. Otherwise it is
taken, its shares are minted and its stake is delegated (`deposit_iff`).
-/

namespace LstCore

open Lib

namespace Chain

variable {c c₁ c' : Chain} {view : Deps} {w : UnbondWindow} {amount : Uint128} {token : ContractInfo}
  {user : Addr}

/-- What a deposit buys. -/
def sharesFor (c : Chain) (amount : Uint128) : ℕ :=
  if c.supply = 0 ∨ c.assets = 0 then amount.val else amount.val * c.supply.val / c.assets

/-- What the contract holds and owes stays in range with a deposit. -/
structure Affordable (c : Chain) (amount : Uint128) : Prop where
  money : c.worth + amount.val < 2 ^ 128
  owed : c.store.reserved + c.store.totals.scrtOwedUnbonding.val < 2 ^ 128
  id : c.store.nextWindowId + 1 ≤ u64Max

/-! ## Messages -/

/-- The rewards of a delegation fit the balance, where all of them do. -/
theorem exists_collect (hfits : c.balance.val + c.held < 2 ^ 128) (v : String) :
    ∃ c', c.collect v = some c' := by
  have hheld := held_le (c := c) (v := v)
  unfold collect
  cases hs : c.stakes.lookup v with
  | none => exact ⟨c, rfl⟩
  | some s =>
    rw [stakeOf_eq hs] at hheld
    obtain ⟨b, hb⟩ := Word.exists_add? (a := c.balance) (b := s.rewards) (by omega)
    exact ⟨_, by simp only [hb, Option.bind_eq_bind, Option.bind_some]; rfl⟩

theorem amount_le (c : Chain) (v : String) : (c.stakeOf v).amount.val ≤ c.bonded := by
  unfold stakeOf bonded
  cases hs : c.stakes.lookup v with
  | none => exact Nat.zero_le _
  | some s => exact Keymap.le_total (f := fun _ s => s.amount.val) hs

/-- The chain takes a delegation that the balance covers. -/
theorem exists_delegate (hfits : c.worth < 2 ^ 128) (hle : amount ≤ c.balance) (v : String) :
    ∃ c', c.run (delegateMsg v c.store.config.bondedDenom amount) = some c' := by
  unfold worth at hfits
  obtain ⟨c₁, h₁⟩ := exists_collect (c := c) (by omega) v
  obtain ⟨hon, hbal, hput, -⟩ := collect_ok h₁
  have hle := Word.le_def.1 hle
  have hspend : c₁.balance.sub? amount = some (c₁.balance.satSub amount) := by
    rw [Word.sub?_eq_some, Word.val_satSub]
    omega
  -- the stake it goes to is part of what is bonded, and the amount of what is held
  have hbonded := amount_le c v
  have hstake : (c₁.stakeOf v).amount = (c.stakeOf v).amount := by rw [hput.at_v]
  obtain ⟨grown, hgrown⟩ := Word.exists_add? (a := (c₁.stakeOf v).amount) (b := amount) (by
    rw [hstake]
    omega)
  simp only [delegateMsg, run, staked, if_true, Option.bind_eq_bind, Option.bind_some, h₁, spend,
    hspend, grow, Option.pure_def]
  exact ⟨_, by rw [show (c₁.stakes.lookup v).getD ⟨0, 0⟩ = c₁.stakeOf v from rfl, hgrown]; rfl⟩

/-- The token mints what the supply has room for. -/
theorem exists_mint (hM : c.shareTotal = c.supply.val) (ht : c.store.config.token = some token)
    (hfits : c.supply.val + amount.val < 2 ^ 128) (user : Addr) (memo : Option String) :
    ∃ c', c.run (.token token (.mint user amount memo)) = some c' ∧ c'.store = c.store ∧
      c'.balance = c.balance ∧ c'.stakes = c.stakes := by
  have hheld := sharesOf_le (c := c) (u := user)
  obtain ⟨supply, hsupply⟩ := Word.exists_add? (a := c.supply) (b := amount) hfits
  obtain ⟨held, hshares⟩ := Word.exists_add? (a := c.sharesOf user) (b := amount) (by omega)
  refine ⟨{ c with supply := supply, shares := c.shares.insert user held }, ?_, rfl, rfl, rfl⟩
  simp only [run, if_pos ht, runToken, hsupply, Option.bind_eq_bind, Option.bind_some, give]
  rw [show ({ c with supply := supply } : Chain).sharesOf user = c.sharesOf user from rfl, hshares]
  rfl

/-! ## Pricing and booking -/

/-- What a deposit has to meet. -/
structure Welcome (c : Chain) (amount : Uint128) : Prop where
  running : c.store.config.paused = false
  min : c.store.config.params.minDeposit ≤ amount
  buys : 0 < c.sharesFor amount
  cap : c.supply.val + c.sharesFor amount ≤ maxTotalSupply

/-- **What a deposit buys**, once it has arrived. -/
theorem deposit_shares (hM : Mirror c) {b shares : Uint128} {st' : Storage} {pool : PoolTotals}
    (hbal : b.val = c.balance.val + amount.val)
    (h : priceDeposit (({ c with balance := b } : Chain).deps view) c.env amount c.store =
      .ok (st', pool, shares)) : shares.val = c.sharesFor amount ∧ pool.supply = c.supply := by
  have hM₁ : Mirror { c with balance := b } := ⟨hM.supply, hM.shares⟩
  obtain ⟨hpool, hshares⟩ := priceDeposit_eq_ok.1 h
  obtain ⟨hnet, hps⟩ := pricing_pool (c := { c with balance := b }) hM₁ hpool
  have hassets : pool.net = c.assets := by
    rw [hnet]
    show _ + _ + (b.val - amount.val) - _ = c.backing - _
    rw [show b.val - amount.val = c.balance.val by omega]
    rfl
  refine ⟨?_, hps⟩
  rw [sharesForDeposit_val hshares, hps, hassets]
  rfl

/-- A deposit that buys something is priced. -/
theorem exists_shares (hne : c.store.validators ≠ []) (hM : Mirror c)
    (hb : c.backing + amount.val < 2 ^ 128) (hr : c.store.reserved < 2 ^ 128)
    (hpos : 0 < c.sharesFor amount) (hfits : c.sharesFor amount < 2 ^ 128) {b : Uint128}
    (hbal : b.val = c.balance.val + amount.val) (view : Deps) :
    ∃ st' pool shares, priceDeposit (({ c with balance := b } : Chain).deps view) c.env amount c.store =
      .ok (st', pool, shares) := by
  have hM₁ : Mirror { c with balance := b } := ⟨hM.supply, hM.shares⟩
  have hback : ({ c with balance := b } : Chain).backing < 2 ^ 128 := by
    unfold backing at hb ⊢
    show total (·.bonded) (c.store.validators.map c.read) +
      total (·.pendingRewards) (c.store.validators.map c.read) + b.val < 2 ^ 128
    omega
  obtain ⟨st', pool, hpool, hsum⟩ := exists_pool (c := { c with balance := b }) hne hM.supply hback hr
    view amount
  obtain ⟨hnet, hps⟩ := pricing_pool (c := { c with balance := b }) hM₁ hpool
  have hassets : pool.net = c.assets := by
    rw [hnet]
    show _ + _ + (b.val - amount.val) - _ = c.backing - _
    rw [show b.val - amount.val = c.balance.val by omega]
    rfl
  have hamount : amount ≠ 0 := fun hz => by
    rw [sharesFor, hz, Word.val_zero, Nat.zero_mul, Nat.zero_div, ite_self] at hpos
    omega
  have hlt : pool.net < 2 ^ 128 := by
    rw [hassets]
    unfold assets
    omega
  obtain ⟨a, ha⟩ : ∃ a : Uint128, a.val = pool.net := ⟨⟨pool.net, hlt⟩, rfl⟩
  have hzero : a = 0 ↔ c.assets = 0 := by rw [Word.eq_zero_iff, ha, hassets]
  have hpay : sharesForDeposit amount pool = .ok ⟨c.sharesFor amount, hfits⟩ := by
    unfold sharesForDeposit
    rw [if_neg hamount, assets_eq_ok.2 ⟨hsum, ha⟩, ok_bind]
    by_cases hz : c.supply = 0 ∨ c.assets = 0
    · rw [if_pos (by rwa [hps, hzero])]
      exact congrArg Except.ok (Word.ext (if_pos hz).symm)
    · rw [if_neg (by rwa [hps, hzero]), mulDivFloor_eq_ok]
      refine ⟨fun h => hz (.inr (hassets ▸ ha ▸ h)), ?_⟩
      show c.sharesFor amount = _
      rw [sharesFor, if_neg hz, ha, hassets, hps]
  exact ⟨st', pool, _, priceDeposit_eq_ok.2 ⟨hpool, hpay⟩⟩

theorem exactFunds_coin {denom : String} (user : Addr) (hne : amount ≠ 0) :
    exactFunds ⟨user, [⟨denom, amount⟩]⟩ denom = .ok amount := if_pos ⟨rfl, hne⟩

theorem exactFunds_coin_ok {denom : String} {n : Uint128}
    (h : exactFunds ⟨user, [⟨denom, amount⟩]⟩ denom = .ok n) : n = amount := by
  unfold exactFunds at h
  dsimp only at h
  split at h
  · exact (Except.ok.inj h).symm
  · cases h

/-- A deposit that was taken was welcome. -/
theorem acceptDeposit_welcome (hM : Mirror c) {b : Uint128}
    (hbal : b.val = c.balance.val + amount.val) {r : Storage × Uint128 × Uint128 × List CosmosMsg}
    (h : acceptDeposit (({ c with balance := b } : Chain).deps view) c.env
      ⟨user, [⟨c.store.config.bondedDenom, amount⟩]⟩ c.store = .ok r) : Welcome c amount := by
  unfold acceptDeposit at h
  simp only [guard_eq_ok, bind_eq_ok, Prod.exists, Config.boundToken, orErr_eq_ok] at h
  obtain ⟨hp, token, -, n, hn, hmin, st₁, pool, shares, hprice, hshares, wm, hwm, hcap, -⟩ := h
  obtain rfl := exactFunds_coin_ok hn
  obtain ⟨hval, hps⟩ := deposit_shares hM hbal hprice
  have hwm := Word.add?_eq_some.1 hwm
  rw [hps] at hwm
  have hnz : shares.val ≠ 0 := fun hz => hshares (Word.eq_zero_iff.2 hz)
  refine ⟨by simpa using hp, ?_, by omega, by omega⟩
  rw [Word.lt_def] at hmin
  exact Word.le_def.2 (by omega)

/-- **A welcome deposit is accepted.** -/
theorem exists_acceptDeposit (hR : c.Reaches) (ht : c.store.config.token = some token)
    (hA : Affordable c amount) (hW : Welcome c amount) {b : Uint128}
    (hbal : b.val = c.balance.val + amount.val) (view : Deps) (user : Addr) :
    ∃ r, acceptDeposit (({ c with balance := b } : Chain).deps view) c.env
      ⟨user, [⟨c.store.config.bondedDenom, amount⟩]⟩ c.store = .ok r := by
  have hM := hR.mirror
  have hback := hR.backing_eq
  have hmoney := hA.money
  have howed := hA.owed
  have hcap := hW.cap
  have hmax : maxTotalSupply < 2 ^ 128 := by decide
  have hne : c.store.validators ≠ [] :=
    List.ne_nil_of_length_pos (Nat.zero_lt_of_lt hR.reachable.manned.cursor)
  have hamount : amount ≠ 0 := fun hz => by
    have hbuys := hW.buys
    rw [sharesFor, hz, Word.val_zero, Nat.zero_mul, Nat.zero_div, ite_self] at hbuys
    omega
  obtain ⟨st₁, pool, shares, hprice⟩ := exists_shares hne hM (by omega) (by omega) hW.buys (by omega)
    hbal view
  obtain ⟨hshares, hps⟩ := deposit_shares hM hbal hprice
  have hrefresh := (pricingPool_eq_ok.1 (priceDeposit_eq_ok.1 hprice).1).1
  -- the validator that the placement rule picks
  have hvals : st₁.validators = c.store.validators.map c.read :=
    refreshed_set (c := { c with balance := b }) hrefresh
  have hbonded : total (·.bonded) st₁.validators ≤ c.worth := by
    rw [hvals, ← hback]
    unfold backing
    omega
  have hmanned := hR.reachable.manned.unmoved (refreshTotals_unmoved hrefresh)
    (congrArg (·.limits) (refreshTotals_config hrefresh))
  obtain ⟨i, hi⟩ : ∃ i, Validators.selectForDelegation st₁.validators amount = .ok i :=
    Validators.selectForDelegation_total hmanned.posted.whole (by omega)
  obtain ⟨v, hv⟩ := Validators.selectForDelegation_furthest hi
  obtain ⟨vb, hvb⟩ : ∃ vb : Uint128, vb.val = v.bonded.val + amount.val := by
    have hmem : v ∈ c.store.validators.map c.read := hvals ▸ List.mem_of_getElem? hv.entry
    obtain ⟨u, -, rfl⟩ := List.mem_map.1 hmem
    have hle := amount_le c u.address
    unfold worth at hmoney
    exact ⟨⟨(c.read u).bonded.val + amount.val, by
      show (c.stakeOf u.address).amount.val + amount.val < 2 ^ 128
      omega⟩, rfl⟩
  have hplaced : placeStake amount st₁.validators =
      .ok (st₁.validators.set i { v with bonded := vb }, v.address) :=
    placeStake_eq_ok.2 ⟨i, v, vb, hi, hv.entry, hvb, rfl, rfl⟩
  -- the totals
  have htb₁ : st₁.totals.totalBonded.val = total (·.bonded) st₁.validators :=
    (refreshTotals_mirrored hrefresh).bonded
  have hts₁ : st₁.totals.totalSupply = c.supply := by
    have hsupply := refreshTotals_supply hrefresh
    rw [mirrorSupply_eq (c := { c with balance := b }) hM.supply] at hsupply
    exact (Except.ok.inj hsupply).symm
  have hadd : add st₁.totals.totalBonded amount =
      .ok ⟨st₁.totals.totalBonded.val + amount.val, by omega⟩ := add_eq_ok.2 rfl
  have hadd' : add st₁.totals.totalSupply shares =
      .ok ⟨st₁.totals.totalSupply.val + shares.val, by rw [hts₁]; omega⟩ := add_eq_ok.2 rfl
  obtain ⟨wm, hwm⟩ := Word.exists_add? (a := pool.supply) (b := shares) (by rw [hps]; omega)
  have hwmval := Word.add?_eq_some.1 hwm
  have hmin : ¬ amount < c.store.config.params.minDeposit := by
    rw [Word.lt_def]
    have := Word.le_def.1 hW.min
    omega
  have hsharesne : shares ≠ 0 := fun hz => by
    have hbuys := hW.buys
    rw [← hshares, hz, Word.val_zero] at hbuys
    omega
  have hunder : ¬ maxTotalSupply < wm.val := by
    rw [hwmval, hps]
    omega
  unfold acceptDeposit
  simp only [hW.running, Bool.false_eq_true, if_false, Config.boundToken, ht, orErr, ok_bind,
    exactFunds_coin user hamount, if_neg hmin, hprice, if_neg hsharesne, hwm, if_neg hunder, hplaced,
    hadd, hadd']
  exact ⟨_, rfl⟩

/-- **A welcome deposit goes through**, and so do its messages. -/
theorem deposit_total (hR : c.Reaches) (ht : c.store.config.token = some token)
    (hA : Affordable c amount) (hW : Welcome c amount) {b : Uint128}
    (hbal : b.val = c.balance.val + amount.val) (view : Deps) (user : Addr) :
    ∃ store resp c', executeDeposit (({ c with balance := b } : Chain).deps view) c.env
        ⟨user, [⟨c.store.config.bondedDenom, amount⟩]⟩ c.store = .ok (store, resp) ∧
      resp.messages.foldlM run { c with balance := b, store := store } = some c' := by
  have hM := hR.mirror
  have hmoney := hA.money
  have howed := hA.owed
  have hcap := hW.cap
  have hmax : maxTotalSupply < 2 ^ 128 := by decide
  obtain ⟨⟨st₂, n, shares, messages⟩, haccept⟩ := exists_acceptDeposit hR ht hA hW hbal view user
  obtain ⟨d, rfl, rfl⟩ := acceptDeposit_ok haccept
  obtain rfl := exactFunds_coin_ok d.funded
  obtain ⟨hshares, -⟩ := deposit_shares hM hbal d.price
  -- the close that rides along
  have hcf : ClosesFrom c.store d.next := .deposit haccept
  have howes : d.next.totals.scrtOwedUnbonding.val + d.next.totals.scrtOwedOpen.val < 2 ^ 128 := by
    rw [d.still.owedOpen, d.still.owedUnbonding]
    unfold Storage.reserved at howed
    omega
  have hnext : d.next.nextWindowId = c.store.nextWindowId :=
    congrArg Queue.nextWindowId d.still.queue
  obtain ⟨store, closing, hclose, hconfig⟩ := hcf.closes hR.reachable howes (hnext ▸ hA.id) c.env
  have hexec : executeDeposit (({ c with balance := b } : Chain).deps view) c.env
      ⟨user, [⟨c.store.config.bondedDenom, n⟩]⟩ c.store =
        .ok (store, ⟨d.messages ++ closing, some (.deposit n shares)⟩) := by
    unfold executeDeposit
    rw [haccept, ok_bind]
    dsimp only
    rw [hclose]
    rfl
  -- the mint and the delegation
  have hpriced : d.priced.config = c.store.config := refreshTotals_config d.refreshed
  have hbound : store.config.token = some d.token := by
    rw [hconfig]
    exact d.bound
  have hroom : c.supply.val + shares.val < 2 ^ 128 := by omega
  obtain ⟨c₁, hmint, hstore, hb₁, hstakes⟩ := exists_mint
    (c := { c with balance := b, store := store }) hM.shares hbound hroom user none
  have hworth : c₁.worth = c.worth + n.val := by
    obtain ⟨-, hbonded, hheld⟩ := stakeOf_congr (c := c) hstakes
    rw [worth, worth, hbonded, hheld, hb₁]
    show c.bonded + c.held + b.val = _
    omega
  have hcovered : n ≤ c₁.balance := by
    rw [hb₁]
    have hle : n.val ≤ b.val := by omega
    exact Word.le_def.2 hle
  obtain ⟨c₂, hdelegate⟩ := exists_delegate (by omega) hcovered d.validator
  have hdenom : c₁.store.config.bondedDenom = d.priced.config.bondedDenom := by
    rw [hstore, hpriced]
    exact congrArg (·.bondedDenom) hconfig
  have hboth : d.messages.foldlM run { c with balance := b, store := store } = some c₂ := by
    unfold Deposited.messages
    rw [List.foldlM_cons, hmint, Option.bind_eq_bind, Option.bind_some, List.foldlM_cons, ← hdenom,
      hdelegate]
    rfl
  have hran := runs_ok hboth
  -- what the close undelegates is there, with the deposit where it was booked
  have hnd : (d.priced.validators.map (·.address)).Nodup := by
    rw [refreshed_set (c := { c with balance := b }) d.refreshed, List.map_map]
    have := hR.reachable.slotted.distinct
    rw [addresses_eq] at this
    exact this
  obtain ⟨c', hrun⟩ : ∃ c', closing.foldlM run c₂ = some c' := by
    have hclose : closeWindowIfOverdue c.env d.next = .ok (c₂.store, closing) := by
      rw [hclose, hran.store]
    refine overdue_runs hclose ?_ (fun v' hv' => ?_) ?_
    · rw [← addresses_eq]
      exact (hR.reachable.slotted.closesFrom hcf).distinct
    · obtain ⟨v, hv, ha, -, hup⟩ := placeStake_carried d.priced.config.bondedDenom d.placed hnd v' hv'
      rw [refreshed_set (c := { c with balance := b }) d.refreshed] at hv
      obtain ⟨u, -, rfl⟩ := List.mem_map.1 hv
      have hstake : (c₂.stakeOf v'.address).amount.val +
          (d.messages.map (·.outOf v'.address)).sum = (c.stakeOf v'.address).amount.val +
            (d.messages.map (·.into v'.address)).sum := hran.amount v'.address
      have hout : (d.messages.map (·.outOf v'.address)).sum = 0 := by
        simp [Deposited.messages, delegateMsg, CosmosMsg.outOf]
      have hinto : (d.messages.map (·.into v'.address)).sum =
          intoBy [delegateMsg d.validator d.priced.config.bondedDenom n] v'.address := by
        simp [intoBy, Deposited.messages, delegateMsg, CosmosMsg.into]
      have hbonded : (({ c with balance := b } : Chain).read u).bonded =
          (c.stakeOf v'.address).amount := by
        rw [← ha]
        rfl
      rw [hbonded] at hup
      rw [Word.le_def]
      omega
    · have hall : c₂.worth + leavingBy c.self.address store.config.bondedDenom d.messages =
          c.bonded + c.held + b.val := hran.worth
      unfold worth at hall hmoney
      omega
  refine ⟨store, _, c', hexec, ?_⟩
  rw [List.foldlM_append, hboth]
  exact hrun

/-! ## The step -/

/-- **The way in.** In any reachable state of a contract with a token, as long as its numbers stay in
range, a deposit of an account is taken exactly when the contract is not paused, the deposit is at
least the minimum, buys a share and stays under the cap. It is given the shares it buys then, and
nobody else is given any. -/
theorem deposit_iff (hR : c.Reaches) (ht : c.store.config.token = some token)
    (hA : Affordable c amount) (hs : ¬ c.IsContract user) (view : Deps) :
    ((∃ r, c.step (.call view ⟨user, [⟨c.store.config.bondedDenom, amount⟩]⟩ .deposit) = some r) ↔
      Welcome c amount) ∧
    ∀ c' answer, c.step (.call view ⟨user, [⟨c.store.config.bondedDenom, amount⟩]⟩ .deposit) =
        some (c', answer) →
      ∃ shares, answer = some (.deposit amount shares) ∧ shares.val = c.sharesFor amount ∧
        c'.supply.val = c.supply.val + shares.val ∧
        ∀ u, (c'.sharesOf u).val = (c.sharesOf u).val + if user = u then shares.val else 0 := by
  have hin : amountIn c.store.config.bondedDenom [⟨c.store.config.bondedDenom, amount⟩] =
      amount.val := by simp [amountIn]
  have htaken : ∀ c' answer, c.step (.call view ⟨user, [⟨c.store.config.bondedDenom, amount⟩]⟩
      .deposit) = some (c', answer) → Welcome c amount ∧ ∃ shares,
        answer = some (.deposit amount shares) ∧ shares.val = c.sharesFor amount := by
    intro c' answer hn
    rcases step_ok hn with ⟨c₁, _, _, _, store, resp, hen, he, -, rfl⟩ | ⟨-, ha⟩
    swap
    · cases ha
    cases hen with
    | call hs' hb =>
      rename_i b
      rw [hin] at hb
      have he : executeDeposit (({ c with balance := b } : Chain).deps view) c.env
        ⟨user, [⟨c.store.config.bondedDenom, amount⟩]⟩ c.store = .ok (store, resp) := he
      unfold executeDeposit at he
      simp only [bind_eq_ok, Prod.exists, pure_eq_ok, Prod.mk.injEq] at he
      obtain ⟨st₁, n, shares, messages, haccept, _, _, -, rfl, rfl⟩ := he
      obtain ⟨d, -, -⟩ := acceptDeposit_ok haccept
      obtain rfl := exactFunds_coin_ok d.funded
      exact ⟨acceptDeposit_welcome hR.mirror hb haccept, shares, rfl,
        (deposit_shares hR.mirror hb d.price).1⟩
  refine ⟨⟨?_, fun hW => ?_⟩, fun c' answer hn => ?_⟩
  · rintro ⟨⟨c', answer⟩, hn⟩
    exact (htaken c' answer hn).1
  · have hmoney := hA.money
    unfold worth at hmoney
    obtain ⟨b, hadd⟩ := Word.exists_add? (a := c.balance) (b := amount) (by omega)
    have hfund : c.fund ⟨user, [⟨c.store.config.bondedDenom, amount⟩]⟩ =
        some { c with balance := b } := by
      have hof : Word.ofNat? 128 amount.val = some amount := Word.ofNat?_eq_some.2 rfl
      unfold fund
      dsimp only
      rw [hin, hof, Option.bind_eq_bind, Option.bind_some, hadd]
      rfl
    obtain ⟨store, resp, c', hexec, hrun⟩ := deposit_total hR ht hA hW (Word.add?_eq_some.1 hadd) view
      user
    refine ⟨(c', resp.data), ?_⟩
    unfold step
    dsimp only
    rw [if_neg hs, hfund, Option.bind_eq_bind, Option.bind_some]
    exact enter_eq (c := { c with balance := b }) hexec hrun
  · obtain ⟨-, shares, rfl, hshares⟩ := htaken c' answer hn
    obtain ⟨_, _, he, hstep, hheld, -, -⟩ := next_deposit hR (hR.supply_ne (by simp [ht])) hn
    obtain ⟨rfl, rfl⟩ : _ ∧ _ := by simpa using he
    exact ⟨shares, rfl, hshares, hstep.supply, hheld⟩

/-- A user withdraws 40 of 100 SCRT, and the window falls overdue. -/
def devOverdue : List ChainEvent := [devSeed, devEnter "user" (Uint128.new 100000000) .deposit,
  devSend "user" (Uint128.new 40000000), .time (devStart + 6 * 86400)]

set_option maxRecDepth 10000 in
/-- A deposit of 5 SCRT is taken on its way past the overdue window. -/
theorem deposit_iff_overdue : ∃ c : Chain, c.Reaches ∧
    ∃ r, c.step (devEnter "other" (Uint128.new 5000000) .deposit) = some r := by
  have hrun : (devChain.replay devOverdue).map (fun s =>
      ((s.1.store.config.token, s.1.store.config.bondedDenom),
        decide (s.1.worth + 5000000 < 2 ^ 128 ∧
          s.1.store.reserved + s.1.store.totals.scrtOwedUnbonding.val < 2 ^ 128 ∧
          s.1.store.nextWindowId + 1 ≤ u64Max ∧ ¬ s.1.IsContract "other" ∧
          s.1.store.config.paused = false ∧
          s.1.store.config.params.minDeposit ≤ Uint128.new 5000000 ∧
          0 < s.1.sharesFor (Uint128.new 5000000) ∧
          s.1.supply.val + s.1.sharesFor (Uint128.new 5000000) ≤ maxTotalSupply))) =
      some ((some ⟨"token", "tokenhash"⟩, "uscrt"), true) := by decide +kernel
  obtain ⟨⟨c, h⟩, hr, hs⟩ := Option.map_eq_some_iff.1 hrun
  simp only [Prod.mk.injEq, decide_eq_true_eq] at hs
  obtain ⟨⟨ht, hdenom⟩, hmoney, howed, hid, hother, hp, hmin, hbuys, hcap⟩ := hs
  have hR : c.Reaches := ⟨devChain, h, devChain_fresh, replay_ok hr⟩
  have hA : Affordable c (Uint128.new 5000000) := ⟨hmoney, howed, hid⟩
  have hex := (deposit_iff hR ht hA hother (devView 0 [])).1.2 ⟨hp, hmin, hbuys, hcap⟩
  rw [hdenom] at hex
  exact ⟨c, hR, hex⟩

end Chain

end LstCore
