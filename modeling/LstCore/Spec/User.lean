import LstCore.Spec.Queue

/-!
# User operations

`execute_receive`, `execute_deposit` and `execute_bootstrap` of `contract.rs`. The two
paths that price are cut where the source turns from pricing to bookkeeping, and again
where the overdue window may be closed.
-/

namespace LstCore

open Lib

/-! ## Withdrawal requests -/

/-- The hook message a withdrawal request must carry. -/
def checkHook : Option Binary → Exec Unit
  | some (.ok .unbond) => .ok ()
  | some (.error e) => .error (.err (.std e))
  | none => .error (.err (.std ⟨"a withdrawal request must carry the Unbond hook message"⟩))

/-- Join the open window with a priced request: the window, the claim and the totals. -/
def joinWindow (deps : Deps) (fromAddr : String) (amount owed : Uint128) (st : Storage) :
    Exec (Storage × UnbondWindow) := do
  let windowId := st.openWindow
  let window ← loadWindow st.windows windowId
  Windows.assertOpen window
  let sharesBurned ← add window.sharesBurned amount
  let scrtOwed ← add window.scrtOwed owed
  let window := { window with sharesBurned := sharesBurned, scrtOwed := scrtOwed }
  let claimant ← liftStd (deps.addrValidate fromAddr)
  let st ← recordClaim claimant windowId amount owed (st.putWindow windowId window)
  let scrtOwedOpen ← add st.totals.scrtOwedOpen owed
  pure ({ st with totals := { st.totals with
      totalSupply := st.totals.totalSupply.satSub amount
      scrtOwedOpen := scrtOwedOpen } }, window)

/-- A request up to the point where it has joined its window. -/
def requestWithdrawal (deps : Deps) (env : Env) (info : MessageInfo) (fromAddr : String)
    (amount : Uint128) (msg : Option Binary) (st : Storage) :
    Exec (Storage × UnbondWindow × Uint128 × ContractInfo) := do
  let token ← st.config.boundToken
  if info.sender ≠ token.address then .error (.err .unauthorized)
  else do
    checkHook msg
    if amount = 0 then .error (.err .zeroAmount)
    else do
      let (st, owed) ← priceWithdrawal deps env amount st
      if owed = 0 then .error (.err .zeroShares)
      else do
        let (st, window) ← joinWindow deps fromAddr amount owed st
        pure (st, window, owed, token)

/-- SNIP-20 receiver hook: a user sent shares here to request a withdrawal. -/
def executeReceive (deps : Deps) (env : Env) (info : MessageInfo) (fromAddr : String)
    (amount : Uint128) (msg : Option Binary) (st : Storage) : Exec (Storage × Response) := do
  let windowId := st.openWindow
  let (st, window, owed, token) ← requestWithdrawal deps env info fromAddr amount msg st
  let (st, closing) ← closeWindowIfOverdue env st
  pure (st, ⟨.token token (.burn amount none) :: closing,
    some (.unbond windowId amount owed
      (satAdd64 window.closesAt st.config.params.unbondingPeriodSecs))⟩)

/-! ## Deposits -/

/-- Delegate an amount that has arrived: to the validator the placement rule picks. -/
def placeStake (amount : Uint128) (set : List ValidatorEntry) :
    Exec (List ValidatorEntry × String) := do
  let idx ← Validators.selectForDelegation set amount
  let set ← modifyEntry set idx fun v => do
    let bonded ← add v.bonded amount
    pure { v with bonded := bonded }
  let entry ← orPanic set[idx]?
  pure (set, entry.address)

/-- A deposit up to the point where its shares and its stake are booked. -/
def acceptDeposit (deps : Deps) (env : Env) (info : MessageInfo) (st : Storage) :
    Exec (Storage × Uint128 × Uint128 × List CosmosMsg) :=
  if st.config.paused then .error (.err .paused)
  else do
    let token ← st.config.boundToken
    let deposit ← exactFunds info st.config.bondedDenom
    if deposit < st.config.params.minDeposit then
      .error (.err (.depositTooSmall deposit st.config.params.minDeposit))
    else do
      let (st, pool, shares) ← priceDeposit deps env deposit st
      if shares = 0 then .error (.err .zeroShares)
      else do
        let wouldMint ← orErr (.overflow "supply cap") (pool.supply.add? shares)
        if maxTotalSupply < wouldMint.val then
          .error (.err (.capExceeded wouldMint (Uint128.new maxTotalSupply)))
        else do
          let (set, validator) ← placeStake deposit st.validators
          let totalBonded ← add st.totals.totalBonded deposit
          let totalSupply ← add st.totals.totalSupply shares
          pure ({ st with
              validators := set
              totals := { st.totals with totalBonded, totalSupply } },
            deposit, shares,
            [.token token (.mint info.sender shares none),
              delegateMsg validator st.config.bondedDenom deposit])

def executeDeposit (deps : Deps) (env : Env) (info : MessageInfo) (st : Storage) :
    Exec (Storage × Response) := do
  let (st, deposit, shares, messages) ← acceptDeposit deps env info st
  let (st, closing) ← closeWindowIfOverdue env st
  pure (st, ⟨messages ++ closing, some (.deposit deposit shares)⟩)

/-! ## Bootstrap -/

/-- Smallest accepted bootstrap seed, in uscrt. -/
def minBootstrapSeed : ℕ := 10000000

/-- Only the deployer may bootstrap, and only once. -/
def checkDeployer (config : Config) (sender : Addr) : Exec Unit :=
  match config.deployer with
  | some deployer =>
    if deployer ≠ sender then .error (.err .unauthorized)
    else if config.token.isSome then .error (.err .tokenAlreadyRegistered)
    else .ok ()
  | none => .error (.err .tokenAlreadyRegistered)

/-- Bind the derivative token and seed the pool. -/
def executeBootstrap (deps : Deps) (env : Env) (info : MessageInfo)
    (tokenAddress tokenCodeHash : String) (st : Storage) : Exec (Storage × Response) := do
  checkDeployer st.config info.sender
  let seed ← exactFunds info st.config.bondedDenom
  if seed.val < minBootstrapSeed then
    .error (.err (.depositTooSmall seed (Uint128.new minBootstrapSeed)))
  else do
    let address ← liftStd (deps.addrValidate tokenAddress)
    let token : ContractInfo := ⟨address, tokenCodeHash⟩
    let (set, validator) ← placeStake seed st.validators
    let totalBonded ← add st.totals.totalBonded seed
    let totalSupply ← add st.totals.totalSupply seed
    pure ({ st with
        config := { st.config with deployer := none, token := some token }
        validators := set
        totals := { st.totals with totalBonded, totalSupply, lastSyncTime := env.time } },
      ⟨[.token token (.registerReceive env.contract.codeHash),
          .token token (.mint env.contract.address seed
            (some "bootstrap seed, permanently locked")),
          delegateMsg validator st.config.bondedDenom seed],
        some (.bootstrap seed seed)⟩)

end LstCore
