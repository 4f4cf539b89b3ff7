import LstCore.Lib.Except
import LstCore.Lib.Word

/-!
# Domain types and wire messages

The types of `lst-types` (`core/types.rs`, `core/msg.rs`, `token.rs`), the errors of
`lst-core`, and the parts of the chain's own vocabulary the contract uses: coins,
delegations, the messages it emits.

A transaction either succeeds or fails and is reverted. It fails with an error of
the contract, or by a panic: the release profile keeps overflow checks on, so an
arithmetic overflow aborts.
-/

namespace LstCore

open Lib

abbrev Addr := String

/-- `Uint128`, the amounts of `cosmwasm_std`. -/
abbrev Uint128 := Word 128

/-- An error of the standard library, a query or the JSON codec. -/
structure StdError where
  msg : String
deriving DecidableEq, Repr

inductive ContractError
  | std (e : StdError)
  | unauthorized
  | paused
  | tokenNotRegistered
  | tokenAlreadyRegistered
  | wrongDenom (expected : String)
  | depositTooSmall (sent min : Uint128)
  | zeroShares
  | capExceeded (wouldMint cap : Uint128)
  | zeroAmount
  | badWeightSum (got : ℕ)
  | emptyValidatorSet
  | validatorUnreadable (address reason : String)
  | tooManyValidators (got max : ℕ)
  | duplicateValidator (address : String)
  | unknownValidator (address : String)
  | validatorNotAllowed (address : String)
  | weightTooHigh (address : String) (got max : ℕ)
  | limitsExceedCode
  | noUnbondingCapacity
  | windowNotOpen (id : ℕ)
  | windowNotClosed (id closesAt now : ℕ)
  | windowNotMatured (id maturesAt now : ℕ)
  | nothingToClaim
  | feeTooHigh (got max : ℕ)
  | windowTooShort (got entries max : ℕ)
  | badEntryCeiling (got max : ℕ)
  | insufficientBalance (needed available : Uint128)
  | overflow (context : String)
deriving DecidableEq, Repr

/-- Why a transaction was reverted. -/
inductive Failure
  | err (e : ContractError)
  | panic
deriving DecidableEq, Repr

/-- A computation of the contract. -/
abbrev Exec := Except Failure

/-! ## Checked arithmetic -/

/-- An operation that aborts the transaction when it leaves the range. -/
def orPanic {α : Type} : Option α → Exec α
  | some a => .ok a
  | none => .error .panic

/-- An operation whose failure is reported as `e`. -/
def orErr {α : Type} (e : ContractError) : Option α → Exec α
  | some a => .ok a
  | none => .error (.err e)

@[simp] theorem orPanic_eq_ok {α : Type} {o : Option α} {a : α} :
    orPanic o = .ok a ↔ o = some a := by
  cases o <;> simp [orPanic]

@[simp] theorem orErr_eq_ok {α : Type} {e : ContractError} {o : Option α} {a : α} :
    orErr e o = .ok a ↔ o = some a := by
  cases o <;> simp [orErr]

/-- A query or an address check: its error becomes `ContractError::Std`. -/
def liftStd {α : Type} : Except StdError α → Exec α
  | .ok a => .ok a
  | .error e => .error (.err (.std e))

@[simp] theorem liftStd_eq_ok {α : Type} {x : Except StdError α} {a : α} :
    liftStd x = .ok a ↔ x = .ok a := by
  cases x <;> simp [liftStd]

/-- `a + b`, which aborts on overflow. -/
def add (a b : Uint128) : Exec Uint128 := orPanic (a.add? b)

/-- `a - b`, which aborts on underflow. -/
def sub (a b : Uint128) : Exec Uint128 := orPanic (a.sub? b)

/-- `Uint128::multiply_ratio`, which aborts on a zero denominator or an overflow. -/
def multiplyRatio (a : Uint128) (num denom : ℕ) : Exec Uint128 :=
  if denom = 0 then .error .panic else orPanic (Word.ofNat? 128 (a.val * num / denom))

@[simp] theorem add_eq_ok {a b c : Uint128} : add a b = .ok c ↔ c.val = a.val + b.val := by
  simp [add]

@[simp] theorem sub_eq_ok {a b c : Uint128} : sub a b = .ok c ↔ a.val = c.val + b.val := by
  simp [sub]

@[simp] theorem multiplyRatio_eq_ok {a c : Uint128} {n d : ℕ} :
    multiplyRatio a n d = .ok c ↔ d ≠ 0 ∧ c.val = a.val * n / d := by
  simp [multiplyRatio]

/-- A constant amount; those of the source all fit. -/
def Uint128.new (n : ℕ) : Uint128 := ⟨n % 2 ^ 128, Nat.mod_lt n (by decide)⟩

def u64Max : ℕ := 2 ^ 64 - 1

def u32Max : ℕ := 2 ^ 32 - 1

def u8Max : ℕ := 2 ^ 8 - 1

/-- `u64::saturating_add`. -/
def satAdd64 (a b : ℕ) : ℕ := min (a + b) u64Max

/-- Addition on `usize`, 32 bits wide on the chain's wasm target. -/
def addUsize (a b : ℕ) : Exec ℕ := if a + b ≤ u32Max then .ok (a + b) else .error .panic

/-- Subtraction on `usize`. -/
def subUsize (a b : ℕ) : Exec ℕ := if b ≤ a then .ok (a - b) else .error .panic

/-! ## `core/types.rs` -/

def bpsDenom : ℕ := 10000

/-- Lifecycle of a validator in the protocol's curated set. -/
inductive ValidatorStatus
  | active
  | draining
  | removed
deriving DecidableEq, Repr

/-- Whether this validator may receive new stake. -/
def ValidatorStatus.acceptsStake (s : ValidatorStatus) : Bool := s == .active

/-- A validator in the protocol's curated set. -/
structure ValidatorEntry where
  address : String
  weightBps : ℕ
  status : ValidatorStatus
  /-- Last synced bonded amount. -/
  bonded : Uint128
  /-- Rewards observed at the last sync but not yet withdrawn. -/
  pendingRewards : Uint128
  /-- Unbonding entries in flight against this validator. -/
  activeUnbondEntries : ℕ
deriving DecidableEq, Repr

structure ValidatorInit where
  address : String
  weightBps : ℕ
deriving DecidableEq, Repr

/-- State machine of a batched unbonding window. -/
inductive WindowState
  | open
  | unbonding
  | matured
  | settled
deriving DecidableEq, Repr

/-- A batched unbonding window. -/
structure UnbondWindow where
  id : ℕ
  openedAt : ℕ
  closesAt : ℕ
  /-- Earliest time the SCRT can be claimed; zero until the window closes. -/
  maturesAt : ℕ
  sharesBurned : Uint128
  scrtOwed : Uint128
  /-- What came back from the staking module, set when the window matures. -/
  scrtRealised : Option Uint128
  scrtClaimed : Uint128
  validatorsUsed : List String
  state : WindowState
deriving DecidableEq, Repr

namespace UnbondWindow

/-- SCRT this window can actually pay. -/
def payable (w : UnbondWindow) : Uint128 := w.scrtRealised.getD w.scrtOwed

/-- SCRT still to be paid out. -/
def outstanding (w : UnbondWindow) : Uint128 := w.payable.satSub w.scrtClaimed

end UnbondWindow

structure ProtocolParams where
  unbondWindowSecs : ℕ
  unbondingPeriodSecs : ℕ
  performanceFeeBps : ℕ
  withdrawalFeeBps : ℕ
  minDeposit : Uint128
  syncStaleAfterSecs : ℕ
  maxUnbondEntriesPerValidator : ℕ
deriving DecidableEq, Repr

/-- Bounds on what the manager may do, fixed by the network. -/
structure ManagerLimits where
  maxPerformanceFeeBps : ℕ
  maxValidatorWeightBps : ℕ
deriving DecidableEq, Repr

structure ContractInfo where
  address : Addr
  codeHash : String
deriving DecidableEq, Repr

/-- One step of a rebalancing plan. -/
structure RedelegateStep where
  srcValidator : String
  dstValidator : String
  amount : Uint128
deriving DecidableEq, Repr

/-- Public view of the protocol's state. -/
structure StateResponse where
  totalBonded : Uint128
  pendingRewards : Uint128
  liquidUnallocated : Uint128
  scrtOwedToWindows : Uint128
  totalSupply : Uint128
  lastSyncTime : ℕ
  isUnattended : Bool
  exchangeRate : Uint128
deriving DecidableEq, Repr

/-! ## `core/msg.rs` -/

structure InstantiateMsg where
  manager : Option String
  limits : ManagerLimits
  validatorAllowlist : List String
  treasury : String
  bondedDenom : String
  validators : List ValidatorInit
  params : ProtocolParams

inductive ManagerMsg
  | setWeights (weights : List ValidatorInit)
  | setPerformanceFee (bps : ℕ)
  | rebalance (plan : List RedelegateStep)

inductive ReceiveHookMsg
  | unbond
deriving DecidableEq, Repr

/-- The payload of a `Send`, with what the JSON codec makes of it. -/
abbrev Binary := Except StdError ReceiveHookMsg

inductive ExecuteMsg
  | deposit
  | receive (sender fromAddr : String) (amount : Uint128) (msg : Option Binary)
  | claimMatured (windowIds : Option (List ℕ))
  | compound (limit : Option ℕ)
  | advanceWindow
  | collectMatured (limit : Option ℕ)
  | sync (limit : Option ℕ)
  | manager (msg : ManagerMsg)
  | setPaused (paused : Bool)
  | bootstrap (tokenAddress tokenCodeHash : String)

inductive ExecuteAnswer
  | deposit (scrtDeposited sharesMinted : Uint128)
  | unbond (windowId : ℕ) (sharesBurned scrtOwed : Uint128) (maturesAtEstimate : ℕ)
  | claimMatured (scrtClaimed : Uint128) (windowsSettled : List ℕ)
  | compound (rewardsWithdrawn feeSharesMinted : Uint128) (validatorsProcessed : ℕ) (done : Bool)
  | advanceWindow (closedWindowId newWindowId : ℕ) (scrtUndelegated : Uint128)
  | collectMatured (windowsMatured : List ℕ)
  | sync (totalBonded : Uint128) (validatorsProcessed : ℕ) (done : Bool)
  | bootstrap (scrtSeeded lockedShares : Uint128)
  | ok
deriving DecidableEq, Repr

/-! ## `token.rs` -/

inductive TokenExecuteMsg
  | mint (recipient : Addr) (amount : Uint128) (memo : Option String)
  | burn (amount : Uint128) (memo : Option String)
  | registerReceive (codeHash : String)
deriving DecidableEq, Repr

/-! ## The chain's vocabulary -/

structure Coin where
  denom : String
  amount : Uint128
deriving DecidableEq, Repr

/-- What the staking module reports about one delegation. -/
structure FullDelegation where
  amount : Coin
  accumulatedRewards : List Coin
deriving DecidableEq, Repr

inductive CosmosMsg
  | delegate (validator : String) (amount : Coin)
  | undelegate (validator : String) (amount : Coin)
  | redelegate (srcValidator dstValidator : String) (amount : Coin)
  | withdrawDelegatorReward (validator : String)
  | bankSend (toAddress : Addr) (amount : List Coin)
  | token (contract : ContractInfo) (msg : TokenExecuteMsg)
deriving DecidableEq, Repr

/-- What a successful call answers: the messages to run and the data. -/
structure Response where
  messages : List CosmosMsg
  data : Option ExecuteAnswer
deriving DecidableEq, Repr

structure Env where
  /-- Block time in whole seconds. -/
  time : ℕ
  contract : ContractInfo

structure MessageInfo where
  sender : Addr
  funds : List Coin

/-- What the contract can ask the chain: the bank, the staking module, the token
contract and the address codec. -/
structure Deps where
  queryBalance : Addr → String → Except StdError Uint128
  queryDelegation : Addr → String → Except StdError (Option FullDelegation)
  /-- The `total_supply` of the token's `TokenInfo` answer. -/
  queryTokenInfo : ContractInfo → Except StdError (Option Uint128)
  addrValidate : String → Except StdError Addr

end LstCore
