import LstCore.Spec.User

/-!
# Upkeep

`execute_sync` and `execute_compound` of `contract.rs`: the paginated re-read of the
set, and the harvest of its rewards.
-/

namespace LstCore

open Lib

/-- The page of the set a paginated call works on: from the cursor to the end of the
page. -/
def pageEnd (cursor limit : ℕ) (set : List ValidatorEntry) : Exec ℕ := do
  let stop ← addUsize cursor (max limit 1)
  pure (min stop set.length)

/-- The entries of a page. -/
def pageOf (cursor stop : ℕ) (set : List ValidatorEntry) : List ValidatorEntry :=
  (set.take stop).drop cursor

/-- The set with its page replaced. -/
def withPage (cursor stop : ℕ) (set page : List ValidatorEntry) : List ValidatorEntry :=
  if cursor ≤ stop then set.take cursor ++ page ++ set.drop stop else set

/-- Refresh cached totals from staking queries, one page at a time. -/
def executeSync (deps : Deps) (env : Env) (limit : Option ℕ) (st : Storage) :
    Exec (Storage × Response) :=
  if st.validators = [] then .error (.err .emptyValidatorSet)
  else do
    let cursor := st.syncCursor
    let stop ← pageEnd cursor (limit.getD defaultSyncLimit) st.validators
    let page ← (pageOf cursor stop st.validators).mapM
      (readDelegation deps env.contract.address st.config.bondedDenom)
    let set := withPage cursor stop st.validators page
    let done := decide (set.length ≤ stop)
    let processed ← subUsize stop cursor
    let totalBonded ← Validators.totalBonded set
    let pendingRewards ← sumOf (·.pendingRewards) set
    let totals := { st.totals with totalBonded, pendingRewards }
    let totals ← if done then do
        let totalSupply ← mirrorSupply deps st
        pure { totals with totalSupply, lastSyncTime := env.time }
      else pure totals
    pure ({ st with
        validators := set
        syncCursor := if done then 0 else stop
        totals := totals },
      ⟨[], some (.sync totalBonded processed done)⟩)

/-! ## Compounding -/

/-- `DEFAULT_COMPOUND_LIMIT`. -/
def defaultCompoundLimit : ℕ := 3

/-- What the harvest loop carries. -/
structure HarvestAcc where
  page : List ValidatorEntry
  messages : List CosmosMsg
  harvested : Uint128

/-- Re-read one validator and take its rewards. A delegation that is gone leaves the
cached stake as it was. -/
def harvestStep (deps : Deps) (contract : Addr) (denom : String) (acc : HarvestAcc)
    (entry : ValidatorEntry) : Exec HarvestAcc := do
  let delegation ← liftStd (deps.queryDelegation contract entry.address)
  let rewards := (delegation.map (·.rewardsIn denom)).getD 0
  let entry := { entry with
    bonded := (delegation.map (·.amount.amount)).getD entry.bonded
    pendingRewards := 0 }
  if rewards = 0 then pure { acc with page := acc.page ++ [entry] }
  else do
    let harvested ← add acc.harvested rewards
    pure {
      page := acc.page ++ [entry]
      messages := acc.messages ++ [.withdrawDelegatorReward entry.address]
      harvested := harvested }

/-- The pool a fee is priced against: the set as just re-read, without the rewards
being harvested. -/
def harvestPool (st : Storage) (liquid owedBacked : Uint128) (set : List ValidatorEntry) :
    Exec PoolTotals := do
  let bonded ← Validators.totalBonded set
  let pendingRewards ← sumOf (·.pendingRewards) set
  pure {
    bonded := bonded
    pendingRewards := pendingRewards
    liquid := liquid
    owedBacked := owedBacked
    supply := st.totals.totalSupply }

/-- The mint of the fee, when there is one. -/
def feeMessages (config : Config) (feeShares : Uint128) : Exec (List CosmosMsg) :=
  if feeShares = 0 then .ok []
  else do
    let token ← config.boundToken
    pure [.token token (.mint config.treasury feeShares (some "performance fee"))]

/-- Restake everything harvested and price the fee on it. -/
def restake (st : Storage) (pool : PoolTotals) (set : List ValidatorEntry) (harvested : Uint128) :
    Exec (List ValidatorEntry × List CosmosMsg × Uint128) :=
  if harvested = 0 then .ok (set, [], 0)
  else do
    let assetsBeforeHarvest ← harvestPool st pool.liquid pool.owedBacked set
    let (set, validator) ← placeStake harvested set
    let feeShares ← feeSharesForRewards harvested st.config.params.performanceFeeBps
      assetsBeforeHarvest
    let fee ← feeMessages st.config feeShares
    pure (set, delegateMsg validator st.config.bondedDenom harvested :: fee, feeShares)

/-- Withdraw staking rewards, take the protocol's cut, and restake the rest. -/
def executeCompound (deps : Deps) (env : Env) (limit : Option ℕ) (st : Storage) :
    Exec (Storage × Response) :=
  if st.validators = [] then .error (.err .emptyValidatorSet)
  else do
    let cursor := st.syncCursor
    let stop ← pageEnd cursor (limit.getD defaultCompoundLimit) st.validators
    let pool ← poolTotals deps env st 0
    let acc ← (pageOf cursor stop st.validators).foldlM
      (harvestStep deps env.contract.address st.config.bondedDenom) ⟨[], [], 0⟩
    let set := withPage cursor stop st.validators acc.page
    let (set, messages, feeShares) ← restake st pool set acc.harvested
    let done := decide (set.length ≤ stop)
    let processed ← subUsize stop cursor
    let totalBonded ← Validators.totalBonded set
    let pendingRewards ← sumOf (·.pendingRewards) set
    let totalSupply ← add st.totals.totalSupply feeShares
    pure ({ st with
        validators := set
        syncCursor := if done then 0 else stop
        totals := { st.totals with
          totalBonded, pendingRewards, totalSupply
          lastSyncTime := if done then env.time else st.totals.lastSyncTime } },
      ⟨acc.messages ++ messages, some (.compound acc.harvested feeShares processed done)⟩)

end LstCore
