import LstCore.Lib.Keymap
import LstCore.Spec.Types

/-!
# Persistent storage

`state.rs`. Every item is written by `instantiate`, so the contract's storage after
it is one record. The per-account stores (`CLAIMS`, `CLAIM_INDEX`) are keyed by the
account.
-/

namespace LstCore

open Lib

structure Config where
  manager : Addr
  /-- Whoever instantiated the contract, until `Bootstrap` spends the right. -/
  deployer : Option Addr
  limits : ManagerLimits
  treasury : Addr
  token : Option ContractInfo
  bondedDenom : String
  params : ProtocolParams
  paused : Bool
deriving DecidableEq, Repr

/-- `Config::token`. -/
def Config.boundToken (c : Config) : Exec ContractInfo := orErr .tokenNotRegistered c.token

/-- Cached view of everything needed to price a deposit or a withdrawal. -/
structure TotalsCache where
  totalBonded : Uint128
  pendingRewards : Uint128
  /-- Mirrored from the token contract at each sync. -/
  totalSupply : Uint128
  /-- Owed to the open window. -/
  scrtOwedOpen : Uint128
  /-- Owed to windows whose undelegation is in flight. -/
  scrtOwedUnbonding : Uint128
  /-- Owed to matured windows. -/
  scrtOwedMatured : Uint128
  lastSyncTime : ℕ
deriving DecidableEq, Repr

namespace TotalsCache

/-- `Default`, synced at `now`. -/
def fresh (now : ℕ) : TotalsCache := ⟨0, 0, 0, 0, 0, 0, now⟩

/-- Window liabilities whose SCRT is still counted in `total_bonded` or the balance. -/
def owedBacked (t : TotalsCache) : Exec Uint128 := add t.scrtOwedOpen t.scrtOwedMatured

/-- Everything still owed to withdrawers, across all three phases. -/
def owedTotal (t : TotalsCache) : Exec Uint128 := do
  let s ← add t.scrtOwedOpen t.scrtOwedUnbonding
  add s t.scrtOwedMatured

/-- Whether the cache has gone unrefreshed for longer than the protocol expects. -/
def isUnattended (t : TotalsCache) (now maxAge : ℕ) : Bool := now - t.lastSyncTime > maxAge

end TotalsCache

structure ClaimRecord where
  windowId : ℕ
  sharesBurned : Uint128
  scrtOwed : Uint128
  claimed : Bool
deriving DecidableEq, Repr

/-- The contract's storage. -/
structure Storage where
  config : Config
  validators : List ValidatorEntry
  totals : TotalsCache
  windows : Keymap ℕ UnbondWindow
  /-- Id of the window accepting withdrawal requests. -/
  openWindow : ℕ
  nextWindowId : ℕ
  /-- Where the next paginated `Sync` or `Compound` resumes. -/
  syncCursor : ℕ
  /-- Ids of windows that are unbonding or matured but not yet drained. -/
  activeWindows : List ℕ
  allowlist : List String
  claims : Keymap (Addr × ℕ) ClaimRecord
  /-- Window ids an account has a claim in. -/
  claimIndex : Addr → List ℕ

/-- Allocate a fresh window id. -/
def allocWindowId (st : Storage) : Exec (ℕ × Storage) :=
  if st.nextWindowId + 1 ≤ u64Max then
    .ok (st.nextWindowId, { st with nextWindowId := st.nextWindowId + 1 })
  else .error .panic

/-- `WINDOWS.insert`. -/
def Storage.putWindow (st : Storage) (id : ℕ) (w : UnbondWindow) : Storage :=
  { st with windows := st.windows.insert id w }

end LstCore
