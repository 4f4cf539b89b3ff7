import LstCore.Lib.Run
import LstCore.Spec.Manager

/-!
# The contract

`instantiate`, `execute`, `migrate` and `query_state` of `contract.rs`, and the
contract as a transition system. A `Call` is one successful transaction's entry into
the contract, with whatever the chain answered to it and whatever the block time was;
a failed one is reverted and leaves no trace. `Reachable` is every storage that some
sequence of calls reaches from an instantiation.
-/

namespace LstCore

open Lib

/-! ## Instantiation -/

def optionalAddr (deps : Deps) (given : Option String) (fallback : Addr) : Exec Addr :=
  match given with
  | some a => liftStd (deps.addrValidate a)
  | none => .ok fallback

/-- What `instantiate` checks before it writes anything. -/
def checkInstantiate (msg : InstantiateMsg) : Exec Unit := do
  validateParams msg.params
  Validators.validateSet msg.validators
  if maxValidators < msg.validatorAllowlist.length then
    .error (.err (.tooManyValidators msg.validatorAllowlist.length maxValidators))
  else do
    validateLimits msg.limits
    Validators.validateManagedWeights msg.validators msg.validatorAllowlist
      msg.limits.maxValidatorWeightBps
    if msg.limits.maxPerformanceFeeBps < msg.params.performanceFeeBps then
      .error (.err (.feeTooHigh msg.params.performanceFeeBps msg.limits.maxPerformanceFeeBps))
    else .ok ()

/-- `initial_validator_set`. -/
def initialValidatorSet (validators : List ValidatorInit) : List ValidatorEntry :=
  validators.map Validators.newEntry

/-- The storage of a fresh contract: a window is open from the first block. -/
def initialStorage (env : Env) (config : Config) (allowlist : List String)
    (validators : List ValidatorInit) : Storage where
  config := config
  validators := initialValidatorSet validators
  totals := TotalsCache.fresh env.time
  windows := (∅ : Keymap ℕ UnbondWindow).insert 0
    (Windows.open 0 env.time config.params.unbondWindowSecs)
  openWindow := 0
  nextWindowId := 1
  syncCursor := 0
  activeWindows := []
  allowlist := allowlist
  claims := ∅
  claimIndex := fun _ => []

def instantiate (deps : Deps) (env : Env) (info : MessageInfo) (msg : InstantiateMsg) :
    Exec (Storage × Response) := do
  checkInstantiate msg
  let manager ← optionalAddr deps msg.manager info.sender
  let treasury ← liftStd (deps.addrValidate msg.treasury)
  let config : Config := {
    manager := manager
    deployer := some info.sender
    limits := msg.limits
    treasury := treasury
    token := none
    bondedDenom := msg.bondedDenom
    params := msg.params
    paused := false }
  pure (initialStorage env config msg.validatorAllowlist msg.validators, ⟨[], none⟩)

/-! ## Execution -/

def execute (deps : Deps) (env : Env) (info : MessageInfo) (msg : ExecuteMsg) (st : Storage) :
    Exec (Storage × Response) :=
  match msg with
  | .bootstrap tokenAddress tokenCodeHash =>
    executeBootstrap deps env info tokenAddress tokenCodeHash st
  | .deposit => executeDeposit deps env info st
  | .receive _ fromAddr amount msg => executeReceive deps env info fromAddr amount msg st
  | .claimMatured windowIds => executeClaimMatured deps env info windowIds st
  | .advanceWindow => executeAdvanceWindow env st
  | .collectMatured limit => executeCollectMatured deps env limit st
  | .compound limit => executeCompound deps env limit st
  | .sync limit => executeSync deps env limit st
  | .setPaused paused => executeSetPaused info paused st
  | .manager m => executeManager info m st

/-! ## Queries -/

def queryState (deps : Deps) (env : Env) (st : Storage) : Exec StateResponse := do
  let pool ← poolTotals deps env st 0
  let rate ← exchangeRate pool
  let owed ← st.totals.owedTotal
  pure {
    totalBonded := st.totals.totalBonded
    pendingRewards := st.totals.pendingRewards
    liquidUnallocated := pool.liquid.satSub st.totals.scrtOwedMatured
    scrtOwedToWindows := owed
    totalSupply := st.totals.totalSupply
    lastSyncTime := st.totals.lastSyncTime
    isUnattended := st.totals.isUnattended env.time st.config.params.syncStaleAfterSecs
    exchangeRate := rate }

/-! ## The transition system -/

/-- One entry into the contract. -/
inductive Call
  | execute (deps : Deps) (env : Env) (info : MessageInfo) (msg : ExecuteMsg)
  | migrate

def Call.run : Call → Storage → Exec (Storage × Response)
  | .execute deps env info msg, st => LstCore.execute deps env info msg st
  | .migrate, st => LstCore.migrate st

/-- The time of a call. An upgrade has none of its own. -/
def Call.time : Call → Option ℕ
  | .execute _ env _ _ => some env.time
  | .migrate => none

/-- A successful call and what it answered. -/
def Step (st : Storage) (e : Call × Response) (st' : Storage) : Prop :=
  e.1.run st = .ok (st', e.2)

/-- The storage of a contract that has just been instantiated. -/
def Instantiated (st : Storage) : Prop :=
  ∃ deps env info msg resp, instantiate deps env info msg = .ok (st, resp)

/-- The storages that calls reach from an instantiation. -/
def Reachable (st : Storage) : Prop := ∃ st₀ h, Instantiated st₀ ∧ Run Step st₀ h st

/-- **The invariant rule of the contract.** -/
theorem Reachable.inv {P : Storage → Prop} {st : Storage} (h : Reachable st)
    (h0 : ∀ st, Instantiated st → P st)
    (hstep : ∀ st e st', P st → Step st e st' → P st') : P st := by
  obtain ⟨st₀, es, hi, hr⟩ := h
  exact hr.inv (h0 st₀ hi) hstep

theorem Reachable.step {st st' : Storage} {e : Call × Response} (h : Reachable st)
    (hs : Step st e st') : Reachable st' := by
  obtain ⟨st₀, es, hi, hr⟩ := h
  exact ⟨st₀, e :: es, hi, hr.cons hs⟩

end LstCore
