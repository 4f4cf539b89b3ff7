import LstCore.Spec.Types

/-!
# Share accounting

`math.rs`. Every conversion rounds in favour of the pool. Products are taken over a
wider intermediate and narrowed once divided, so `mulDivFloor` works on values.
-/

namespace LstCore

open Lib

/-- Fixed-point scale of the reported exchange rate. -/
def rateScale : ℕ := 10 ^ 18

/-- Hard ceiling on the performance fee. -/
def maxPerformanceFeeBps : ℕ := 2000

/-- Hardest ceiling on any single validator's share of the stake. -/
def maxValidatorWeightBps : ℕ := 2500

/-- The chain's `max_entries` staking parameter. -/
def chainMaxUnbondEntries : ℕ := 7

/-- Ceiling on the derivative supply the protocol will mint. -/
def maxTotalSupply : ℕ := 100000000000

/-- Largest allowlist the protocol will accept. -/
def maxValidators : ℕ := 20

/-- Total assets backing the derivative token. -/
structure PoolTotals where
  bonded : Uint128
  pendingRewards : Uint128
  /-- Everything the contract holds in the staking denom. -/
  liquid : Uint128
  /-- Window liabilities whose SCRT is still inside `bonded` or `liquid`. -/
  owedBacked : Uint128
  supply : Uint128
deriving DecidableEq, Repr

/-- SCRT backing the outstanding supply. -/
def PoolTotals.assets (p : PoolTotals) : Exec Uint128 := do
  let v ← orErr (.overflow "pool assets") (p.bonded.add? p.pendingRewards)
  let gross ← orErr (.overflow "pool assets") (v.add? p.liquid)
  pure (gross.satSub p.owedBacked)

/-- `a * b / denom`, rounded down. -/
def mulDivFloor (a b denom : ℕ) (context : String) : Exec Uint128 :=
  if denom = 0 then .error (.err (.overflow context))
  else orErr (.overflow context) (Word.ofNat? 128 (a * b / denom))

/-- Shares minted for a deposit. -/
def sharesForDeposit (deposit : Uint128) (totals : PoolTotals) : Exec Uint128 :=
  if deposit = 0 then .error (.err .zeroAmount)
  else do
    let assets ← totals.assets
    if totals.supply = 0 ∨ assets = 0 then pure deposit
    else mulDivFloor deposit.val totals.supply.val assets.val "shares_for_deposit"

/-- SCRT redeemable for a number of shares. -/
def assetsForShares (shares : Uint128) (totals : PoolTotals) : Exec Uint128 :=
  if shares = 0 then .error (.err .zeroAmount)
  else if totals.supply = 0 then pure 0
  else do
    let assets ← totals.assets
    mulDivFloor shares.val assets.val totals.supply.val "assets_for_shares"

/-- SCRT per share, scaled by `rateScale`. -/
def exchangeRate (totals : PoolTotals) : Exec Uint128 :=
  if totals.supply = 0 then pure (Uint128.new rateScale)
  else do
    let assets ← totals.assets
    mulDivFloor assets.val rateScale totals.supply.val "exchange_rate"

/-- Shares to mint to the treasury so that it owns `feeBps` of the rewards. -/
def feeSharesForRewards (rewards : Uint128) (feeBps : ℕ) (totals : PoolTotals) : Exec Uint128 :=
  if rewards = 0 ∨ feeBps = 0 ∨ totals.supply = 0 then pure 0
  else do
    let feeValue ← mulDivFloor rewards.val feeBps bpsDenom "fee_value"
    if feeValue = 0 then pure 0
    else do
      let assets ← totals.assets
      let assetsAfter ← orErr (.overflow "assets after rewards") (assets.add? rewards)
      let denom ← orErr (.overflow "fee denominator") (assetsAfter.sub? feeValue)
      if denom = 0 then pure 0
      else mulDivFloor feeValue.val totals.supply.val denom.val "fee_shares"

/-- Steady-state number of concurrent unbonding entries per validator. -/
def concurrentEntriesForWindow (unbondingPeriodSecs windowSecs : ℕ) : ℕ :=
  if windowSecs = 0 then u32Max
  else
    let entries := (unbondingPeriodSecs + windowSecs - 1) / windowSecs
    if entries ≤ u32Max then entries else u32Max

/-- Entry slots a window length must be allowed to occupy: the steady-state count plus one. -/
def requiredEntrySlots (unbondingPeriodSecs windowSecs : ℕ) : ℕ :=
  min (concurrentEntriesForWindow unbondingPeriodSecs windowSecs + 1) u32Max

end LstCore
