import LstCore.Spec.Chain

/-!
# The contract block by block

The contract in a chain whose blocks come at non-decreasing times, and the unbonding
entries the staking module holds for it: one for each `Undelegate` the contract issues,
live until the end of the first block in which its unbonding period has passed. The
staking module rejects an `Undelegate` to a validator that has `chainMaxUnbondEntries`
live entries.
-/

namespace LstCore

open Lib

/-- A live unbonding entry. -/
structure UnbondEntry where
  validator : String
  createdAt : ℕ
deriving DecidableEq

structure Blocks where
  store : Storage
  /-- Time of the current block, in seconds. -/
  now : ℕ
  /-- The live entries, oldest first. -/
  entries : List UnbondEntry

inductive BlockEvent
  | call (c : Call)
  | next (now : ℕ)

/-- The entries at one validator. -/
def entriesAt (validator : String) (entries : List UnbondEntry) : List UnbondEntry :=
  entries.filter fun e => e.validator = validator

/-- The entries that undelegating from some validators in turn creates. -/
def newEntries (now : ℕ) (validators : List String) : List UnbondEntry :=
  validators.map fun v => ⟨v, now⟩

/-- The validators that messages undelegate from, in order. -/
def undelegatedFrom (messages : List CosmosMsg) : List String := (undelegations messages).map (·.1)

namespace Blocks

/-- A call is made at the time of its block. A block ends by taking the complete entries
away. Times stay short of where a `u64` sum saturates. -/
def step (b : Blocks) : BlockEvent → Option Blocks
  | .call c =>
    if ∀ t ∈ c.time, t = b.now then
      match c.run b.store with
      | .ok (store, resp) => some { b with
          store := store
          entries := b.entries ++ newEntries b.now (undelegatedFrom resp.messages) }
      | .error _ => none
    else none
  | .next now =>
    if b.now ≤ now ∧ now < u64Max then some { b with
        now := now
        entries := b.entries.filter fun e =>
          b.now < e.createdAt + b.store.config.params.unbondingPeriodSecs }
    else none

/-- A contract instantiated in the current block. -/
def Fresh (b : Blocks) : Prop :=
  b.entries = [] ∧ b.now < u64Max ∧ ∃ deps env info msg resp,
    env.time = b.now ∧ instantiate deps env info msg = .ok (b.store, resp)

/-- The blocks that a history leads to from a fresh contract. -/
def Along (es : List BlockEvent) (b : Blocks) : Prop :=
  ∃ b₀, b₀.Fresh ∧ Run (fun b e b' => step b e = some b') b₀ es b

end Blocks

end LstCore
