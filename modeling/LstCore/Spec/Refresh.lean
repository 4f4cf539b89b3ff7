import LstCore.Spec.State
import LstCore.Spec.Validators

/-!
# Reading the chain

The parts of `contract.rs` that read the bank, the staking module and the token:
the re-read of a delegation, the refresh of the cached totals, and the pool that
deposits and withdrawals are priced against. The `config` that the source passes
along is what the storage holds throughout.
-/

namespace LstCore

open Lib

/-- The rewards a delegation has accrued in a denom. -/
def FullDelegation.rewardsIn (d : FullDelegation) (denom : String) : Uint128 :=
  ((d.accumulatedRewards.find? (fun c => c.denom == denom)).map (·.amount)).getD 0

/-- Re-read one validator's delegation into its cached entry. -/
def readDelegation (deps : Deps) (contract : Addr) (denom : String) (entry : ValidatorEntry) :
    Exec ValidatorEntry :=
  match deps.queryDelegation contract entry.address with
  | .error e => .error (.err (.validatorUnreadable entry.address e.msg))
  | .ok (some d) =>
    .ok { entry with bonded := d.amount.amount, pendingRewards := d.rewardsIn denom }
  | .ok none => .ok { entry with bonded := 0, pendingRewards := 0 }

def queryTotalSupply (deps : Deps) (token : ContractInfo) : Exec Uint128 := do
  let supply ← liftStd (deps.queryTokenInfo token)
  orErr (.std ⟨"derivative token hides its total supply; it must be instantiated with public_total_supply = true"⟩) supply

/-- The supply mirrored from the token, once one is bound. -/
def mirrorSupply (deps : Deps) (st : Storage) : Exec Uint128 :=
  match st.config.token with
  | some token => queryTotalSupply deps token
  | none => pure st.totals.totalSupply

/-- Re-read the whole validator set and save the totals that result. -/
def refreshTotals (deps : Deps) (env : Env) (st : Storage) : Exec Storage :=
  if st.validators = [] then .error (.err .emptyValidatorSet)
  else do
    let set ← st.validators.mapM (readDelegation deps env.contract.address st.config.bondedDenom)
    let totalBonded ← Validators.totalBonded set
    let pendingRewards ← sumOf (·.pendingRewards) set
    let totalSupply ← mirrorSupply deps st
    pure { st with
      validators := set
      totals := { st.totals with totalBonded, pendingRewards, totalSupply, lastSyncTime := env.time } }

/-- Assemble the pool's totals, reading uncommitted SCRT from the bank module.
`exclude` is taken out of the balance. -/
def poolTotals (deps : Deps) (env : Env) (st : Storage) (exclude : Uint128) : Exec PoolTotals := do
  let balance ← liftStd (deps.queryBalance env.contract.address st.config.bondedDenom)
  let owedBacked ← st.totals.owedBacked
  pure {
    bonded := st.totals.totalBonded
    pendingRewards := st.totals.pendingRewards
    liquid := balance.satSub exclude
    owedBacked := owedBacked
    supply := st.totals.totalSupply }

/-- The refresh and the pool that follows it: what every price is read from. -/
def pricingPool (deps : Deps) (env : Env) (exclude : Uint128) (st : Storage) :
    Exec (Storage × PoolTotals) := do
  let st ← refreshTotals deps env st
  let pool ← poolTotals deps env st exclude
  pure (st, pool)

/-- The pricing part of `execute_deposit`: the shares a deposit mints. The deposit is
already in the balance and comes back out. -/
def priceDeposit (deps : Deps) (env : Env) (deposit : Uint128) (st : Storage) :
    Exec (Storage × PoolTotals × Uint128) := do
  let (st, pool) ← pricingPool deps env deposit st
  let shares ← sharesForDeposit deposit pool
  pure (st, pool, shares)

/-- The pricing part of `execute_receive`: the SCRT a number of shares is owed. -/
def priceWithdrawal (deps : Deps) (env : Env) (amount : Uint128) (st : Storage) :
    Exec (Storage × Uint128) := do
  let (st, pool) ← pricingPool deps env 0 st
  let owed ← assetsForShares amount pool
  pure (st, owed)

/-- Require exactly one coin of the staking denom, and return its amount. -/
def exactFunds (info : MessageInfo) (denom : String) : Exec Uint128 :=
  match info.funds with
  | [coin] =>
    if coin.denom = denom ∧ coin.amount ≠ 0 then .ok coin.amount
    else .error (.err (.wrongDenom denom))
  | _ => .error (.err (.wrongDenom denom))

def delegateMsg (validator denom : String) (amount : Uint128) : CosmosMsg :=
  .delegate validator ⟨denom, amount⟩

end LstCore
