import LstCore.Proof.Sets
import LstCore.Queue.Ledger

/-!
# The operations that leave the queue alone

What a successful refresh, deposit, sync, compound and manager call did, as one
inversion lemma each, and what none of them touches (`Still`): the queue, the three
liabilities, and the terms of the protocol that only an upgrade could change.
-/

namespace LstCore

open Lib

variable {deps : Deps} {env : Env} {info : MessageInfo} {st st' st'' : Storage}

/-- Neither the queue, nor what is owed, nor the fixed terms have moved. -/
structure Still (st st' : Storage) : Prop where
  queue : st'.queue = st.queue
  owedOpen : st'.totals.scrtOwedOpen = st.totals.scrtOwedOpen
  owedUnbonding : st'.totals.scrtOwedUnbonding = st.totals.scrtOwedUnbonding
  owedMatured : st'.totals.scrtOwedMatured = st.totals.scrtOwedMatured
  bondedDenom : st'.config.bondedDenom = st.config.bondedDenom
  period : st'.config.params.unbondingPeriodSecs = st.config.params.unbondingPeriodSecs
  windowSecs : st'.config.params.unbondWindowSecs = st.config.params.unbondWindowSecs
  ceiling : st'.config.params.maxUnbondEntriesPerValidator =
    st.config.params.maxUnbondEntriesPerValidator
  allowlist : st'.allowlist = st.allowlist

/-- Writes of the validators, the pool's figures, the cursor and other settings. -/
theorem Still.of_write {validators : List ValidatorEntry} {cursor : ℕ} {config : Config}
    {tb pr ts : Uint128} {time : ℕ} (hden : config.bondedDenom = st.config.bondedDenom)
    (hperiod : config.params.unbondingPeriodSecs = st.config.params.unbondingPeriodSecs)
    (hsecs : config.params.unbondWindowSecs = st.config.params.unbondWindowSecs)
    (hceiling : config.params.maxUnbondEntriesPerValidator =
      st.config.params.maxUnbondEntriesPerValidator) : Still st { st with
      validators := validators
      syncCursor := cursor
      config := config
      totals := { st.totals with
        totalBonded := tb, pendingRewards := pr, totalSupply := ts, lastSyncTime := time } } :=
  ⟨rfl, rfl, rfl, rfl, hden, hperiod, hsecs, hceiling, rfl⟩

theorem Still.trans (h : Still st st') (h' : Still st' st'') : Still st st'' where
  queue := h'.queue.trans h.queue
  owedOpen := h'.owedOpen.trans h.owedOpen
  owedUnbonding := h'.owedUnbonding.trans h.owedUnbonding
  owedMatured := h'.owedMatured.trans h.owedMatured
  bondedDenom := h'.bondedDenom.trans h.bondedDenom
  period := h'.period.trans h.period
  windowSecs := h'.windowSecs.trans h.windowSecs
  ceiling := h'.ceiling.trans h.ceiling
  allowlist := h'.allowlist.trans h.allowlist

/-! ## The refresh -/

/-- **A refresh, inverted.** -/
theorem refreshTotals_eq_ok : refreshTotals deps env st = .ok st' ↔
    st.validators ≠ [] ∧ Readable deps env.contract.address st.validators ∧ ∃ tb pr ts,
      tb.val = total (·.bonded)
        (st.validators.map (readEntry deps env.contract.address st.config.bondedDenom)) ∧
      pr.val = total (·.pendingRewards)
        (st.validators.map (readEntry deps env.contract.address st.config.bondedDenom)) ∧
      mirrorSupply deps st = .ok ts ∧
      st' = { st with
        validators := st.validators.map (readEntry deps env.contract.address st.config.bondedDenom)
        totals := { st.totals with
          totalBonded := tb, pendingRewards := pr, totalSupply := ts, lastSyncTime := env.time } } := by
  unfold refreshTotals
  rw [guard_eq_ok]
  simp only [bind_eq_ok, mapM_read_eq_ok, totalBonded_eq_ok, sumOf_eq_ok, pure_eq_ok]
  constructor
  · rintro ⟨hne, _, ⟨hr, rfl⟩, tb, htb, pr, hpr, ts, hts, rfl⟩
    exact ⟨hne, hr, tb, pr, ts, htb, hpr, hts, rfl⟩
  · rintro ⟨hne, hr, tb, pr, ts, htb, hpr, hts, rfl⟩
    exact ⟨hne, _, ⟨hr, rfl⟩, tb, htb, pr, hpr, ts, hts, rfl⟩

theorem refreshTotals_still (h : refreshTotals deps env st = .ok st') :
    Still st st' ∧ slots st'.validators = slots st.validators := by
  obtain ⟨-, -, tb, pr, ts, -, -, -, rfl⟩ := refreshTotals_eq_ok.1 h
  exact ⟨.of_write rfl rfl rfl rfl, slots_read _⟩

theorem refreshTotals_config (h : refreshTotals deps env st = .ok st') : st'.config = st.config := by
  obtain ⟨-, -, tb, pr, ts, -, -, -, rfl⟩ := refreshTotals_eq_ok.1 h
  rfl

theorem pricingPool_eq_ok {exclude : Uint128} {pool : PoolTotals} :
    pricingPool deps env exclude st = .ok (st', pool) ↔
      refreshTotals deps env st = .ok st' ∧ poolTotals deps env st' exclude = .ok pool := by
  simp only [pricingPool, bind_eq_ok, pure_eq_ok, Prod.mk.injEq]
  constructor
  · rintro ⟨_, h, _, h', rfl, rfl⟩; exact ⟨h, h'⟩
  · rintro ⟨h, h'⟩; exact ⟨_, h, _, h', rfl, rfl⟩

theorem priceDeposit_eq_ok {deposit shares : Uint128} {pool : PoolTotals} :
    priceDeposit deps env deposit st = .ok (st', pool, shares) ↔
      pricingPool deps env deposit st = .ok (st', pool) ∧
        sharesForDeposit deposit pool = .ok shares := by
  simp only [priceDeposit, bind_eq_ok, pure_eq_ok, Prod.mk.injEq, Prod.exists]
  constructor
  · rintro ⟨_, _, h, _, h', rfl, rfl, rfl⟩; exact ⟨h, h'⟩
  · rintro ⟨h, h'⟩; exact ⟨_, _, h, _, h', rfl, rfl, rfl⟩

theorem priceWithdrawal_eq_ok {amount owed : Uint128} :
    priceWithdrawal deps env amount st = .ok (st', owed) ↔
      ∃ pool, pricingPool deps env 0 st = .ok (st', pool) ∧ assetsForShares amount pool = .ok owed := by
  simp only [priceWithdrawal, bind_eq_ok, pure_eq_ok, Prod.mk.injEq, Prod.exists]
  constructor
  · rintro ⟨_, _, h, _, h', rfl, rfl⟩; exact ⟨_, h, h'⟩
  · rintro ⟨_, h, h'⟩; exact ⟨_, _, h, _, h', rfl, rfl⟩

/-! ## Deposits and the seed -/

/-- **A deposit that was accepted**: what it was priced on, where its stake went and what
was booked for it. -/
structure Deposited (deps : Deps) (env : Env) (info : MessageInfo) (st : Storage)
    (deposit shares : Uint128) where
  token : ContractInfo
  priced : Storage
  pool : PoolTotals
  set : List ValidatorEntry
  validator : Addr
  bonded : Uint128
  supply : Uint128
  running : st.config.paused = false
  bound : st.config.token = some token
  funded : exactFunds info st.config.bondedDenom = .ok deposit
  price : priceDeposit deps env deposit st = .ok (priced, pool, shares)
  placed : placeStake deposit priced.validators = .ok (set, validator)
  bonded_val : bonded.val = priced.totals.totalBonded.val + deposit.val
  supply_val : supply.val = priced.totals.totalSupply.val + shares.val

namespace Deposited

variable {deposit shares : Uint128} (d : Deposited deps env info st deposit shares)

/-- The storage it leaves. -/
def next : Storage :=
  { d.priced with
    validators := d.set
    totals := { d.priced.totals with totalBonded := d.bonded, totalSupply := d.supply } }

/-- The mint to the depositor and the delegation, in that order. -/
def messages : List CosmosMsg :=
  [.token d.token (.mint info.sender shares none),
    delegateMsg d.validator d.priced.config.bondedDenom deposit]

theorem refreshed : refreshTotals deps env st = .ok d.priced :=
  (pricingPool_eq_ok.1 (priceDeposit_eq_ok.1 d.price).1).1

theorem still : Still st d.next :=
  (refreshTotals_still d.refreshed).1.trans (.of_write rfl rfl rfl rfl)

theorem slots_next : slots d.next.validators = slots st.validators :=
  (slots_placeStake d.placed).trans (refreshTotals_still d.refreshed).2

end Deposited

/-- **A deposit up to its booking, inverted.** -/
theorem acceptDeposit_ok {deposit shares : Uint128} {messages : List CosmosMsg}
    (h : acceptDeposit deps env info st = .ok (st', deposit, shares, messages)) :
    ∃ d : Deposited deps env info st deposit shares, st' = d.next ∧ messages = d.messages := by
  unfold acceptDeposit at h
  rw [guard_eq_ok] at h
  simp only [bind_eq_ok, guard_eq_ok, Prod.exists, Config.boundToken, orErr_eq_ok] at h
  obtain ⟨hp, token, ht, d, hd, -, st₁, pool, s, hprice, -, wm, -, -, set, validator, hplace, tb, htb,
    ts, hts, h⟩ := h
  simp only [pure_eq_ok, Prod.mk.injEq] at h
  obtain ⟨rfl, rfl, rfl, rfl⟩ := h
  simp only [add_eq_ok] at htb hts
  exact ⟨⟨token, st₁, pool, set, validator, tb, ts, by simpa using hp, ht, hd, hprice, hplace, htb,
    hts⟩, rfl, rfl⟩

/-- **A pool that was seeded**: where the seed's stake went and what was booked for it. -/
structure Seeded (info : MessageInfo) (st : Storage) where
  seed : Uint128
  address : Addr
  set : List ValidatorEntry
  validator : Addr
  bonded : Uint128
  supply : Uint128
  funded : exactFunds info st.config.bondedDenom = .ok seed
  placed : placeStake seed st.validators = .ok (set, validator)
  bonded_val : bonded.val = st.totals.totalBonded.val + seed.val
  supply_val : supply.val = st.totals.totalSupply.val + seed.val

namespace Seeded

variable (s : Seeded info st) (now : ℕ) (tokenCodeHash : String)

/-- The storage it leaves: the token is bound, and no second seed can come. -/
def next : Storage :=
  { st with
    config := { st.config with deployer := none, token := some ⟨s.address, tokenCodeHash⟩ }
    validators := s.set
    totals := { st.totals with
      totalBonded := s.bonded, totalSupply := s.supply, lastSyncTime := now } }

/-- The seed's shares are minted to the contract `self` itself. -/
def messages (self : ContractInfo) : List CosmosMsg :=
  [.token ⟨s.address, tokenCodeHash⟩ (.registerReceive self.codeHash),
    .token ⟨s.address, tokenCodeHash⟩ (.mint self.address s.seed
      (some "bootstrap seed, permanently locked")),
    delegateMsg s.validator st.config.bondedDenom s.seed]

theorem still : Still st (s.next now tokenCodeHash) := .of_write rfl rfl rfl rfl

theorem slots_next : slots (s.next now tokenCodeHash).validators = slots st.validators :=
  slots_placeStake s.placed

end Seeded

/-- **The seeding of the pool, inverted.** -/
theorem executeBootstrap_ok {tokenAddress tokenCodeHash : String} {resp : Response}
    (h : executeBootstrap deps env info tokenAddress tokenCodeHash st = .ok (st', resp)) :
    ∃ s : Seeded info st, st' = s.next env.time tokenCodeHash ∧
      resp.messages = s.messages tokenCodeHash env.contract := by
  unfold executeBootstrap at h
  simp only [bind_eq_ok, guard_eq_ok, Prod.exists, add_eq_ok] at h
  obtain ⟨-, -, seed, hseed, -, address, -, set, validator, hplace, tb, htb, ts, hts, h⟩ := h
  simp only [pure_eq_ok, Prod.mk.injEq] at h
  obtain ⟨rfl, rfl⟩ := h
  exact ⟨⟨seed, address, set, validator, tb, ts, hseed, hplace, htb, hts⟩, rfl, rfl⟩

end LstCore
