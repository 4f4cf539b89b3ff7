import LstCore.Proof.Frame
import LstCore.Proof.Marking
import LstCore.Proof.Math

/-!
# What prices are read from

* `poolQuote`: the assets and the supply of the pool, as they are handed to pricing.
* `poolQuote_eq_ok`: what they are, and when they can be had.
* `priceDeposit_of_quote`, `priceWithdrawal_of_quote`: they determine every price.
-/

namespace LstCore

open Lib

variable {deps deps' : Deps} {env : Env} {st st' : Storage} {a s tb pr ts : Uint128}

/-- What a refresh reads: the stake, the rewards and the supply. -/
structure Backing (deps : Deps) (env : Env) (st : Storage) (tb pr ts : Uint128) : Prop where
  nonempty : st.validators ≠ []
  readable : Readable deps env.contract.address st.validators
  bonded : tb.val = total (·.bonded)
    (st.validators.map (readEntry deps env.contract.address st.config.bondedDenom))
  pending : pr.val = total (·.pendingRewards)
    (st.validators.map (readEntry deps env.contract.address st.config.bondedDenom))
  supply : mirrorSupply deps st = .ok ts

/-- The pool's assets and supply, as they are handed to pricing. -/
def poolQuote (deps : Deps) (env : Env) (st : Storage) : Exec (Uint128 × Uint128) := do
  let (_, pool) ← pricingPool deps env 0 st
  let assets ← pool.assets
  pure (assets, pool.supply)

theorem pricingPool_backing {exclude : Uint128} {pool : PoolTotals} :
    (∃ st', pricingPool deps env exclude st = .ok (st', pool)) ↔
      ∃ tb pr ts balance ob, Backing deps env st tb pr ts ∧
        deps.queryBalance env.contract.address st.config.bondedDenom = .ok balance ∧
        ob.val = st.totals.scrtOwedOpen.val + st.totals.scrtOwedMatured.val ∧
        pool = ⟨tb, pr, balance.satSub exclude, ob, ts⟩ := by
  simp only [pricingPool_eq_ok, refreshTotals_eq_ok]
  constructor
  · rintro ⟨st', ⟨hne, hr, tb, pr, ts, htb, hpr, hts, rfl⟩, hp⟩
    simp only [poolTotals, bind_eq_ok, liftStd_eq_ok, TotalsCache.owedBacked, add_eq_ok,
      pure_eq_ok] at hp
    obtain ⟨balance, hb, ob, hob, rfl⟩ := hp
    exact ⟨tb, pr, ts, balance, ob, ⟨hne, hr, htb, hpr, hts⟩, hb, hob, rfl⟩
  · rintro ⟨tb, pr, ts, balance, ob, ⟨hne, hr, htb, hpr, hts⟩, hb, hob, rfl⟩
    refine ⟨_, ⟨hne, hr, tb, pr, ts, htb, hpr, hts, rfl⟩, ?_⟩
    simp only [poolTotals, bind_eq_ok, liftStd_eq_ok, TotalsCache.owedBacked, add_eq_ok, pure_eq_ok]
    exact ⟨balance, hb, ob, hob, rfl⟩

/-- **The quote.** What is staked, pending and held, less what the open and the matured windows
are owed. -/
theorem poolQuote_eq_ok : poolQuote deps env st = .ok (a, s) ↔
    ∃ tb pr balance, Backing deps env st tb pr s ∧
      deps.queryBalance env.contract.address st.config.bondedDenom = .ok balance ∧
      st.totals.scrtOwedOpen.val + st.totals.scrtOwedMatured.val < 2 ^ 128 ∧
      tb.val + pr.val + balance.val < 2 ^ 128 ∧
      a.val = tb.val + pr.val + balance.val -
        (st.totals.scrtOwedOpen.val + st.totals.scrtOwedMatured.val) := by
  unfold poolQuote
  simp only [bind_eq_ok, Prod.exists, pure_eq_ok, Prod.mk.injEq]
  constructor
  · rintro ⟨st', pool, hp, a', ha, rfl, rfl⟩
    obtain ⟨tb, pr, ts, balance, ob, hB, hb, hob, rfl⟩ := pricingPool_backing.1 ⟨st', hp⟩
    rw [assets_eq_ok] at ha
    simp only [PoolTotals.net, Word.val_satSub, Word.val_zero, Nat.sub_zero, hob] at ha
    have := ob.isLt
    exact ⟨tb, pr, balance, hB, hb, by omega, ha.1, ha.2⟩
  · rintro ⟨tb, pr, balance, hB, hb, hlt, hlt', ha⟩
    obtain ⟨st', hp⟩ := pricingPool_backing.2
      ⟨tb, pr, s, balance, ⟨_, hlt⟩, hB, hb, rfl, (rfl : (_ : PoolTotals) = _)⟩
    refine ⟨st', _, hp, a, assets_eq_ok.2 ?_, rfl, rfl⟩
    simpa only [PoolTotals.net, Word.val_satSub, Word.val_zero, Nat.sub_zero] using ⟨hlt', ha⟩

/-! ## Prices -/

/-- The shares a deposit is given for a quote. -/
def quotedShares (deposit assets supply : Uint128) : Exec Uint128 :=
  if deposit = 0 then .error (.err .zeroAmount)
  else if supply = 0 ∨ assets = 0 then .ok deposit
  else mulDivFloor deposit.val supply.val assets.val "shares_for_deposit"

/-- What a number of shares is owed for a quote. -/
def quotedOwed (shares assets supply : Uint128) : Exec Uint128 :=
  if shares = 0 then .error (.err .zeroAmount)
  else if supply = 0 then .ok 0
  else mulDivFloor shares.val assets.val supply.val "assets_for_shares"

theorem quote_pool (h : poolQuote deps env st = .ok (a, s)) : ∃ st' pool,
    pricingPool deps env 0 st = .ok (st', pool) ∧ pool.assets = .ok a ∧ pool.supply = s := by
  unfold poolQuote at h
  simp only [bind_eq_ok, Prod.exists, pure_eq_ok, Prod.mk.injEq] at h
  obtain ⟨st', pool, hp, a', ha, rfl, rfl⟩ := h
  exact ⟨st', pool, hp, ha, rfl⟩

/-- **The quote determines what a withdrawal is owed.** -/
theorem priceWithdrawal_of_quote (h : poolQuote deps env st = .ok (a, s)) (shares : Uint128) :
    (priceWithdrawal deps env shares st).map (·.2) = quotedOwed shares a s := by
  obtain ⟨st', pool, hp, ha, rfl⟩ := quote_pool h
  unfold priceWithdrawal
  rw [hp, ok_bind]
  dsimp only
  unfold assetsForShares quotedOwed
  split
  · rfl
  · split
    · rfl
    · rw [ha, ok_bind]
      cases mulDivFloor shares.val a.val pool.supply.val "assets_for_shares" <;> rfl

/-- **The quote determines the shares of a deposit**, which is already in the balance. -/
theorem priceDeposit_of_quote {balance : Uint128} {deposit : Uint128}
    (hq : deps.queryBalance env.contract.address st.config.bondedDenom = .ok balance)
    (h : poolQuote deps env st = .ok (a, s)) (hdel : deps'.queryDelegation = deps.queryDelegation)
    (hinfo : deps'.queryTokenInfo = deps.queryTokenInfo) {b : Uint128}
    (hb : b.val = balance.val + deposit.val)
    (hq' : deps'.queryBalance env.contract.address st.config.bondedDenom = .ok b) :
    (priceDeposit deps' env deposit st).map (·.2.2) = quotedShares deposit a s := by
  obtain ⟨st', pool, hp, ha, rfl⟩ := quote_pool h
  obtain ⟨href, hpool⟩ := pricingPool_eq_ok.1 hp
  have hcfg := refreshTotals_config href
  -- the deposit in the balance is excluded again, so the pool is the one quoted
  have hsame : pricingPool deps' env deposit st = .ok (st', pool) := by
    refine pricingPool_eq_ok.2 ⟨?_, ?_⟩
    · rw [← href]
      unfold refreshTotals readDelegation mirrorSupply queryTotalSupply
      rw [hdel, hinfo]
    · rw [← hpool]
      unfold poolTotals
      rw [hcfg, hq, hq']
      have hliq : b.satSub deposit = balance.satSub 0 :=
        Word.ext (by simp only [Word.val_satSub, Word.val_zero]; omega)
      simp only [liftStd, ok_bind, hliq]
  unfold priceDeposit
  rw [hsame, ok_bind]
  dsimp only
  unfold sharesForDeposit quotedShares
  split
  · rfl
  · rw [ha, ok_bind]
    split
    · rfl
    · cases mulDivFloor deposit.val pool.supply.val a.val "shares_for_deposit" <;> rfl

/-! ## Marking -/

/-- What a refresh reads depends on the addresses of the set, the configuration and the
mirrored supply. -/
theorem Backing.congr (h : Backing deps env st tb pr ts)
    (ha : st'.validators.map (·.address) = st.validators.map (·.address))
    (hc : st'.config = st.config) (hs : st'.totals.totalSupply = st.totals.totalSupply) :
    Backing deps env st' tb pr ts := by
  -- what is read of an entry is read by its address
  have hsum : ∀ (f : ValidatorEntry → Uint128) (g : String → Uint128),
      (∀ v, f (readEntry deps env.contract.address st.config.bondedDenom v) = g v.address) →
      ∀ l : List ValidatorEntry,
        total f (l.map (readEntry deps env.contract.address st.config.bondedDenom)) =
          ((l.map (·.address)).map fun a => (g a).val).sum := by
    intro f g hg l
    simp [total, Function.comp_def, hg]
  constructor
  · intro hnil
    rw [hnil, List.map_nil] at ha
    exact h.nonempty (List.map_eq_nil_iff.1 ha.symm)
  · intro v hv
    have hmem : v.address ∈ st'.validators.map (·.address) := List.mem_map_of_mem hv
    rw [ha] at hmem
    obtain ⟨u, hu, he⟩ := List.mem_map.1 hmem
    rw [← he]
    exact h.readable u hu
  · rw [h.bonded, hc, hsum _ (stakeAt deps env.contract.address) (fun _ => rfl),
      hsum _ (stakeAt deps env.contract.address) (fun _ => rfl), ha]
  · rw [h.pending, hc,
      hsum _ (rewardsAt deps env.contract.address st.config.bondedDenom) (fun _ => rfl),
      hsum _ (rewardsAt deps env.contract.address st.config.bondedDenom) (fun _ => rfl), ha]
  · rw [← h.supply]
    unfold mirrorSupply
    rw [hc, hs]

/-- **Marking leaves what a refresh reads as it was.** -/
theorem Marking.backing {now limit : ℕ} {balance : Uint128} {rets : List (ℕ × Uint128)}
    (hM : Marking now limit balance st st' rets) :
    Backing deps env st' tb pr ts ↔ Backing deps env st tb pr ts := by
  have ha : st'.validators.map (·.address) = st.validators.map (·.address) := by
    rw [hM.frame]
    exact map_release (fun _ _ => rfl) _ _
  have hc : st'.config = st.config := by rw [hM.frame]
  have hs : st'.totals.totalSupply = st.totals.totalSupply := by rw [hM.frame]
  exact ⟨fun h => h.congr ha.symm hc.symm hs.symm, fun h => h.congr ha hc hs⟩

end LstCore
