import LstCore.Spec.Contract

/-!
# The contract and its chain

The part of the chain the contract's money depends on: its bank balance in the staking
denom, block time, and the undelegations in flight. What the staking module, the token
and the address codec answer is free in every transaction (`Tx.view`); the bank answers
with the balance.

Money comes in with a transaction's funds, by outside transfers, by the staking module's
returns, and as withdrawn rewards: a withdrawal pays a validator's rewards once in a
transaction, as the same transaction's queries report them, and a change of a delegation
withdraws first. Money goes out by the contract's `Delegate` and `Send`. A transaction
whose call or messages fail leaves the chain as it was.

`World.step` is the chain with returns credited freely. `World.promptStep` credits in full
whatever is complete as soon as it is, `World.blockStep` when a block ends.
-/

namespace LstCore

open Lib

/-- The undelegations one closing issued. -/
structure Return where
  legs : List (String × Uint128)
  completesAt : ℕ
  /-- What the staking module credited, once it has. -/
  credited : Option Uint128
deriving DecidableEq

def Return.amount (r : Return) : ℕ := (r.legs.map (·.2.val)).sum

structure World where
  store : Storage
  /-- Time of the current block, in seconds. -/
  now : ℕ
  self : ContractInfo
  /-- What the contract holds in the staking denom. -/
  balance : Uint128
  /-- The returns in flight or credited, by the window that was closed. -/
  returns : Keymap ℕ Return

/-- One transaction: what the rest of the chain answers, and the call. -/
structure Tx where
  view : Deps
  info : MessageInfo
  msg : ExecuteMsg

inductive Event
  | tx (t : Tx)
  | migrate
  | inflow (amount : Uint128)
  | credit (id : ℕ) (amount : Uint128)
  | time (now : ℕ)

/-- The largest block time in seconds: `Timestamp` counts nanoseconds in 64 bits. -/
def maxBlockSeconds : ℕ := u64Max / 10 ^ 9

/-! ## Messages -/

/-- The delegation the staking module reports; none where it answers nothing. -/
def delegationOf (deps : Deps) (contract : Addr) (validator : String) : Option FullDelegation :=
  match deps.queryDelegation contract validator with
  | .ok d => d
  | .error _ => none

/-- The rewards it reports. -/
def rewardsAt (deps : Deps) (contract : Addr) (denom validator : String) : Uint128 :=
  ((delegationOf deps contract validator).map (·.rewardsIn denom)).getD 0

/-- The balance while a transaction's messages run, and the validators whose rewards it
has already withdrawn. -/
structure Till where
  balance : Uint128
  withdrawn : List String

/-- Withdraw a validator's rewards, once. -/
def Till.collect (rewards : String → Uint128) (till : Till) (validator : String) : Option Till :=
  if validator ∈ till.withdrawn then some till
  else do
    let balance ← till.balance.add? (rewards validator)
    pure ⟨balance, validator :: till.withdrawn⟩

/-- The coins of a denom. -/
def amountIn (denom : String) (coins : List Coin) : ℕ :=
  ((coins.filter fun c => c.denom = denom).map (·.amount.val)).sum

/-- Pay an amount out. -/
def Till.spend (till : Till) (amount : ℕ) : Option Till := do
  let amount ← Word.ofNat? 128 amount
  let balance ← till.balance.sub? amount
  pure { till with balance := balance }

/-- What one message does to the balance. -/
def Till.run (self : Addr) (denom : String) (rewards : String → Uint128) (till : Till) :
    CosmosMsg → Option Till
  | .withdrawDelegatorReward validator => till.collect rewards validator
  | .delegate validator coin => do
    let till ← till.collect rewards validator
    till.spend (amountIn denom [coin])
  | .undelegate validator _ => till.collect rewards validator
  | .redelegate src dst _ => do
    let till ← till.collect rewards src
    till.collect rewards dst
  | .bankSend to_address coins => do
    let after ← till.spend (amountIn denom coins)
    pure (if to_address = self then till else after)
  | .token _ _ => some till

/-- The undelegations among the messages. -/
def undelegations (messages : List CosmosMsg) : List (String × Uint128) :=
  messages.filterMap fun
    | .undelegate validator coin => some (validator, coin.amount)
    | _ => none

/-! ## The chain -/

namespace World

def env (w : World) : Env := ⟨w.now, w.self⟩

/-- What a transaction can ask when the contract holds `balance`. -/
def deps (w : World) (view : Deps) (balance : Uint128) : Deps :=
  { view with queryBalance := fun account denom =>
      if account = w.self.address ∧ denom = w.store.config.bondedDenom then .ok balance
      else view.queryBalance account denom }

/-- The balance once a transaction's funds have arrived. -/
def funded (w : World) (info : MessageInfo) : Option Uint128 := do
  let funds ← Word.ofNat? 128 (amountIn w.store.config.bondedDenom info.funds)
  w.balance.add? funds

/-- File what a transaction's messages undelegated under the window it closed. -/
def fileReturn (w : World) (messages : List CosmosMsg) : Keymap ℕ Return :=
  if undelegations messages = [] then w.returns
  else w.returns.insert w.store.openWindow
    ⟨undelegations messages, w.now + w.store.config.params.unbondingPeriodSecs, none⟩

/-- The call of a transaction. -/
def call (w : World) (t : Tx) : Option (Uint128 × Storage × Response) := do
  let balance ← w.funded t.info
  match execute (w.deps t.view balance) w.env t.info t.msg w.store with
  | .ok (store, resp) => pure (balance, store, resp)
  | .error _ => none

/-- The messages a call answered with, run in order. -/
def runMessages (w : World) (view : Deps) (balance : Uint128) (messages : List CosmosMsg) :
    Option Till :=
  messages.foldlM (Till.run w.self.address w.store.config.bondedDenom
    (rewardsAt (w.deps view balance) w.self.address w.store.config.bondedDenom)) ⟨balance, []⟩

def tx (w : World) (t : Tx) : Option World := do
  let (balance, store, resp) ← w.call t
  let till ← w.runMessages t.view balance resp.messages
  pure { w with
    store := store
    balance := till.balance
    returns := w.fileReturn resp.messages }

/-- The staking module returns `amount` of what a closing undelegated. -/
def credit (w : World) (id : ℕ) (amount : Uint128) : Option World := do
  let r ← w.returns.lookup id
  if r.credited = none ∧ amount.val ≤ r.amount then do
    let balance ← w.balance.add? amount
    pure { w with
      balance := balance
      returns := w.returns.insert id { r with credited := some amount } }
  else none

/-- The return is complete and has not been credited. -/
def ready (w : World) (id : ℕ) : Bool :=
  (w.returns.lookup id).elim false fun r => r.credited = none ∧ r.completesAt ≤ w.now

/-- Credit a return in full. -/
def creditFull (w : World) (id : ℕ) : Option World := do
  let r ← w.returns.lookup id
  let amount ← Word.ofNat? 128 r.amount
  w.credit id amount

/-- Credit in full every return that is complete. -/
def creditReady (w : World) : Option World := (w.returns.keys.filter w.ready).foldlM creditFull w

def step (w : World) : Event → Option World
  | .tx t => w.tx t
  | .migrate =>
    match LstCore.migrate w.store with
    | .ok (store, _) => some { w with store := store }
    | .error _ => none
  | .inflow amount => do
    let balance ← w.balance.add? amount
    pure { w with balance := balance }
  | .credit id amount => w.credit id amount
  | .time now => if w.now ≤ now ∧ now ≤ maxBlockSeconds then some { w with now := now } else none

/-- Returns are credited in full as soon as they are complete. -/
def promptStep (w : World) : Event → Option World
  | .credit _ _ => none
  | e => do
    let w ← w.step e
    w.creditReady

/-- Returns are credited in full as the block ends in which they are complete. -/
def blockStep (w : World) : Event → Option World
  | .time now => do
    let w ← w.creditReady
    w.step (.time now)
  | .credit _ _ => none
  | e => w.step e

/-- A contract just instantiated, whatever it already holds. -/
def Fresh (w : World) : Prop :=
  w.returns = ∅ ∧ w.now ≤ maxBlockSeconds ∧ ∃ view info msg resp,
    instantiate (w.deps view w.balance) w.env info msg = .ok (w.store, resp)

/-- The worlds a step function reaches from a fresh contract along a history. -/
def Along (step : World → Event → Option World) (h : List Event) (w : World) : Prop :=
  ∃ w₀, w₀.Fresh ∧ Run (fun w e w' => step w e = some w') w₀ h w

/-- The worlds a step function reaches from a fresh contract. -/
def Reaches (step : World → Event → Option World) (w : World) : Prop := ∃ h, Along step h w

end World

end LstCore
