import LstCore.Spec.Chain

/-!
# The contract, its delegations and its token

The chain with its answers tied to what it holds: the bank and the staking module report the
contract's balance and its delegations, and the bound token its supply. What accounts that are
not the contract's hold, and which addresses are valid, is free in every call (`view`).

A `Delegate`, an `Undelegate` and a `Redelegate` first pay the rewards of the delegations they
change into the balance, and a withdrawal pays them in full. The token executes the contract's
mints and burns and nobody else's, and calls `Receive` with what it has just transferred to the
contract from somebody else. Undelegated money leaves the delegation and comes back as any other
inflow.

The staking module answers every query about the contract's own delegations, so that
`ValidatorUnreadable` does not occur here (over any `Deps` it does). It refuses an `Undelegate` or a
`Redelegate` of more than is delegated, and no redelegation as transitive: of the redelegations under
way it keeps no record.
-/

namespace LstCore

open Lib

/-- A delegation of the contract, and the rewards it has accrued. -/
structure Stake where
  amount : Uint128
  rewards : Uint128
deriving DecidableEq

structure Chain where
  store : Storage
  /-- Time of the current block, in seconds. -/
  now : ℕ
  self : ContractInfo
  /-- What the contract holds in the staking denom. -/
  balance : Uint128
  /-- The contract's delegations, by validator. -/
  stakes : Keymap String Stake
  /-- The token's total supply. -/
  supply : Uint128
  /-- What each account holds of the token. -/
  shares : Keymap Addr Uint128

inductive ChainEvent
  /-- A transaction of an account other than the contract and its token. -/
  | call (view : Deps) (info : MessageInfo) (msg : ExecuteMsg)
  /-- `Send` of the token to the contract, with its hook. -/
  | send (view : Deps) (sender fromAddr : Addr) (amount : Uint128) (hook : Option Binary)
  /-- `Transfer` of the token, without a hook. -/
  | transfer (fromAddr toAddr : Addr) (amount : Uint128)
  | migrate
  | inflow (amount : Uint128)
  | accrue (validator : String) (amount : Uint128)
  | slash (validator : String) (amount : Uint128)
  | time (now : ℕ)

namespace Chain

def env (c : Chain) : Env := ⟨c.now, c.self⟩

/-- A delegation as the staking module reports it. -/
def report (c : Chain) (s : Stake) : FullDelegation :=
  ⟨⟨c.store.config.bondedDenom, s.amount⟩, [⟨c.store.config.bondedDenom, s.rewards⟩]⟩

/-- What a call can ask. -/
def deps (c : Chain) (view : Deps) : Deps where
  queryBalance account denom :=
    if account = c.self.address ∧ denom = c.store.config.bondedDenom then .ok c.balance
    else view.queryBalance account denom
  queryDelegation delegator validator :=
    if delegator = c.self.address then .ok ((c.stakes.lookup validator).map c.report)
    else view.queryDelegation delegator validator
  queryTokenInfo token :=
    if c.store.config.token = some token then .ok (some c.supply) else view.queryTokenInfo token
  addrValidate := view.addrValidate

def sharesOf (c : Chain) (account : Addr) : Uint128 := (c.shares.lookup account).getD 0

/-! ## Messages -/

/-- Pay the rewards of a delegation, if there is one, into the balance. -/
def collect (c : Chain) (validator : String) : Option Chain :=
  match c.stakes.lookup validator with
  | none => some c
  | some s => do
    let balance ← c.balance.add? s.rewards
    pure { c with balance := balance, stakes := c.stakes.insert validator { s with rewards := 0 } }

def spend (c : Chain) (amount : Uint128) : Option Chain := do
  let balance ← c.balance.sub? amount
  pure { c with balance := balance }

/-- Add to a delegation, which may be new. -/
def grow (c : Chain) (validator : String) (amount : Uint128) : Option Chain := do
  let s := (c.stakes.lookup validator).getD ⟨0, 0⟩
  let grown ← s.amount.add? amount
  pure { c with stakes := c.stakes.insert validator { s with amount := grown } }

/-- Take from a delegation. One with nothing left is gone. -/
def shrink (c : Chain) (validator : String) (amount : Uint128) : Option Chain := do
  let s ← c.stakes.lookup validator
  let left ← s.amount.sub? amount
  pure { c with stakes :=
    if left = 0 then c.stakes.erase validator else c.stakes.insert validator { s with amount := left } }

/-- The amount of a coin, which has to be of the staking denom. -/
def staked (c : Chain) (coin : Coin) : Option Uint128 :=
  if coin.denom = c.store.config.bondedDenom then some coin.amount else none

/-- Add to what an account holds of the token. -/
def give (c : Chain) (account : Addr) (amount : Uint128) : Option Chain := do
  let held ← (c.sharesOf account).add? amount
  pure { c with shares := c.shares.insert account held }

/-- Take from it. -/
def take (c : Chain) (account : Addr) (amount : Uint128) : Option Chain := do
  let held ← (c.sharesOf account).sub? amount
  pure { c with shares := c.shares.insert account held }

/-- What the token does at the contract's request. -/
def runToken (c : Chain) : TokenExecuteMsg → Option Chain
  | .mint recipient amount _ => do
    let supply ← c.supply.add? amount
    ({ c with supply := supply }).give recipient amount
  | .burn amount _ => do
    let supply ← c.supply.sub? amount
    ({ c with supply := supply }).take c.self.address amount
  | .registerReceive _ => some c

/-- One message of the contract. -/
def run (c : Chain) : CosmosMsg → Option Chain
  | .withdrawDelegatorReward validator => do
    let _ ← c.stakes.lookup validator
    c.collect validator
  | .delegate validator coin => do
    let amount ← c.staked coin
    let c ← c.collect validator
    let c ← c.spend amount
    c.grow validator amount
  | .undelegate validator coin => do
    let amount ← c.staked coin
    let c ← c.collect validator
    c.shrink validator amount
  | .redelegate src dst coin =>
    if src = dst then none
    else do
      let amount ← c.staked coin
      let c ← c.collect src
      let c ← c.collect dst
      let c ← c.shrink src amount
      c.grow dst amount
  | .bankSend to_address coins => do
    let amount ← Word.ofNat? 128 (amountIn c.store.config.bondedDenom coins)
    let after ← c.spend amount
    pure (if to_address = c.self.address then c else after)
  | .token token msg => if c.store.config.token = some token then c.runToken msg else none

/-! ## Events -/

/-- A call to the contract: what it answers, once its messages have run. -/
def enter (c : Chain) (view : Deps) (info : MessageInfo) (msg : ExecuteMsg) :
    Option (Chain × Option ExecuteAnswer) :=
  match execute (c.deps view) c.env info msg c.store with
  | .ok (store, resp) => do
    let c ← resp.messages.foldlM run { c with store := store }
    pure (c, resp.data)
  | .error _ => none

/-- The chain once the funds of a transaction have arrived. -/
def fund (c : Chain) (info : MessageInfo) : Option Chain := do
  let funds ← Word.ofNat? 128 (amountIn c.store.config.bondedDenom info.funds)
  let balance ← c.balance.add? funds
  pure { c with balance := balance }

/-- Move shares from one account to another. -/
def move (c : Chain) (fromAddr toAddr : Addr) (amount : Uint128) : Option Chain := do
  let c ← c.take fromAddr amount
  c.give toAddr amount

/-- The accounts that send no transactions: the contract and its token. -/
def IsContract (c : Chain) (account : Addr) : Prop :=
  account = c.self.address ∨ ∃ token ∈ c.store.config.token, account = token.address

instance (c : Chain) (account : Addr) : Decidable (c.IsContract account) :=
  inferInstanceAs (Decidable (_ ∨ ∃ _ ∈ _, _))

def step (c : Chain) : ChainEvent → Option (Chain × Option ExecuteAnswer)
  | .call view info msg =>
    if c.IsContract info.sender then none
    else do
      let c ← c.fund info
      c.enter view info msg
  | .send view sender fromAddr amount hook =>
    if fromAddr = c.self.address then none
    else do
      let token ← c.store.config.token
      let c ← c.move fromAddr c.self.address amount
      c.enter view ⟨token.address, []⟩ (.receive sender fromAddr amount hook)
  | .transfer fromAddr toAddr amount =>
    if fromAddr = c.self.address then none
    else do
      let c ← c.move fromAddr toAddr amount
      pure (c, none)
  | .migrate =>
    match LstCore.migrate c.store with
    | .ok (store, _) => some ({ c with store := store }, none)
    | .error _ => none
  | .inflow amount => do
    let balance ← c.balance.add? amount
    pure ({ c with balance := balance }, none)
  | .accrue validator amount => do
    let s ← c.stakes.lookup validator
    let rewards ← s.rewards.add? amount
    pure ({ c with stakes := c.stakes.insert validator { s with rewards := rewards } }, none)
  | .slash validator amount => do
    let s ← c.stakes.lookup validator
    let left ← s.amount.sub? amount
    pure ({ c with stakes := c.stakes.insert validator { s with amount := left } }, none)
  | .time now =>
    if c.now ≤ now ∧ now ≤ maxBlockSeconds then some ({ c with now := now }, none) else none

/-- A contract just instantiated, before it delegates and before its token is minted. -/
def Fresh (c : Chain) : Prop :=
  c.stakes = ∅ ∧ c.supply = 0 ∧ c.shares = ∅ ∧ ∃ view info msg resp,
    instantiate (c.deps view) c.env info msg = .ok (c.store, resp)

/-- An event, and what the contract answered if it was called. -/
def Next (c : Chain) (e : ChainEvent × Option ExecuteAnswer) (c' : Chain) : Prop :=
  c.step e.1 = some (c', e.2)

/-- The chains that events reach from a fresh contract. -/
def Reaches (c : Chain) : Prop := ∃ c₀ h, c₀.Fresh ∧ Run Next c₀ h c

end Chain

end LstCore
