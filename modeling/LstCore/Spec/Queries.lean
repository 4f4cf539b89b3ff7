import LstCore.Spec.Contract
import Mathlib.Data.List.Sort

/-!
# Queries

`query`, `query_windows` and `query_pending_claims` of `contract.rs`. The last is answered to the
account a permit was signed by. What validates the permit is the toolkit's.
-/

namespace LstCore

open Lib

/-! ## Windows -/

/-- `DEFAULT_WINDOW_PAGE`. -/
def defaultWindowPage : ℕ := 30

/-- `MAX_WINDOW_PAGE`. -/
def maxWindowPage : ℕ := 100

/-- Whether a filter lets a window through. -/
def wanted (state : Option WindowState) (w : UnbondWindow) : Bool :=
  match state with
  | some filter => filter == w.state
  | none => true

/-- The scan over the ids: it stops at the limit and skips an id without a window. -/
def scanWindows (windows : Keymap ℕ UnbondWindow) (state : Option WindowState) (limit : ℕ) :
    List UnbondWindow → List ℕ → List UnbondWindow
  | out, [] => out
  | out, id :: ids =>
    if limit ≤ out.length then out
    else
      match windows.lookup id with
      | none => scanWindows windows state limit out ids
      | some w =>
        scanWindows windows state limit (if wanted state w then out ++ [w] else out) ids

/-- Windows, oldest first, optionally filtered by state. -/
def queryWindows (state : Option WindowState) (startAfter limit : Option ℕ) (st : Storage) :
    List UnbondWindow :=
  let limit := min (limit.getD defaultWindowPage) maxWindowPage
  let start := startAfter.elim 0 (satAdd64 · 1)
  scanWindows st.windows state limit [] (List.range' start (st.nextWindowId - start))

/-! ## Claims -/

/-- A claim as its holder is shown it. -/
structure UserClaim where
  windowId : ℕ
  sharesBurned : Uint128
  /-- What the claim will actually pay, not what it was promised. -/
  scrtOwed : Uint128
  maturesAt : ℕ
  state : WindowState
  claimed : Bool
deriving DecidableEq, Repr

/-- The answer to `PendingClaims`. -/
structure PendingClaims where
  claims : List UserClaim
  totalOwed : Uint128
  totalClaimableNow : Uint128
deriving DecidableEq, Repr

/-- A running total, which an amount is added to where a condition holds. -/
def addIf (c : Prop) [Decidable c] (total amount : Uint128) : Exec Uint128 :=
  if c then add total amount else .ok total

@[simp] theorem addIf_eq_ok {c : Prop} [Decidable c] {total amount x : Uint128} :
    addIf c total amount = .ok x ↔ x.val = total.val + if c then amount.val else 0 := by
  unfold addIf
  split
  · exact add_eq_ok
  · rw [Except.ok.injEq, Word.ext_iff, Nat.add_zero]
    exact eq_comm

/-- One turn of the loop over an account's index. A claim or a window that is absent is
skipped. -/
def pendingStep (account : Addr) (st : Storage) (acc : PendingClaims) (id : ℕ) :
    Exec PendingClaims :=
  match st.claims.lookup (account, id), st.windows.lookup id with
  | some claim, some window => do
    let payable ← Windows.payoutForClaim window claim.scrtOwed
    let totalOwed ← addIf (claim.claimed = false) acc.totalOwed payable
    let claimable ← addIf (claim.claimed = false ∧ window.state = .matured)
      acc.totalClaimableNow payable
    pure {
      claims := acc.claims ++ [{
        windowId := id
        sharesBurned := claim.sharesBurned
        scrtOwed := payable
        maturesAt := window.maturesAt
        state := window.state
        claimed := claim.claimed }]
      totalOwed := totalOwed
      totalClaimableNow := claimable }
  | _, _ => pure acc

/-- An account's claims, newest window first. -/
def queryPendingClaims (account : Addr) (st : Storage) : Exec PendingClaims := do
  let acc ← (st.claimIndex account).foldlM (pendingStep account st) ⟨[], 0, 0⟩
  pure { acc with claims := acc.claims.insertionSort fun a b => b.windowId ≤ a.windowId }

/-! ## The entry point -/

/-- Public view of the protocol's configuration. -/
structure ConfigResponse where
  manager : Addr
  limits : ManagerLimits
  validatorAllowlist : List String
  bootstrapped : Bool
  treasury : Addr
  token : Option ContractInfo
  bondedDenom : String
  params : ProtocolParams
  paused : Bool
deriving DecidableEq, Repr

def Config.intoResponse (c : Config) (allowlist : List String) : ConfigResponse where
  manager := c.manager
  limits := c.limits
  validatorAllowlist := allowlist
  bootstrapped := c.deployer.isNone
  treasury := c.treasury
  token := c.token
  bondedDenom := c.bondedDenom
  params := c.params
  paused := c.paused

inductive AuthQueryMsg
  | pendingClaims
deriving DecidableEq, Repr

inductive QueryMsg (Permit : Type)
  | config
  | state
  | exchangeRate
  | validators
  | windows (state : Option WindowState) (startAfter limit : Option ℕ)
  | withPermit (permit : Permit) (query : AuthQueryMsg)

inductive QueryAnswer
  | config (response : ConfigResponse)
  | state (response : StateResponse)
  | exchangeRate (rate : Uint128) (isUnattended : Bool)
  | validators (validators : List ValidatorEntry)
  | windows (windows : List UnbondWindow)
  | pendingClaims (response : PendingClaims)
deriving DecidableEq, Repr

/-- Resolve a permit to the address that signed it, given what validates one for a contract. -/
def permitSigner {Permit : Type} (validate : Permit → Addr → Except StdError String) (deps : Deps)
    (env : Env) (permit : Permit) : Exec Addr := do
  let signer ← liftStd (validate permit env.contract.address)
  liftStd (deps.addrValidate signer)

def query {Permit : Type} (validate : Permit → Addr → Except StdError String) (deps : Deps)
    (env : Env) (st : Storage) : QueryMsg Permit → Exec QueryAnswer
  | .config => pure (.config (st.config.intoResponse st.allowlist))
  | .state => do
    let state ← queryState deps env st
    pure (.state state)
  | .exchangeRate => do
    let state ← queryState deps env st
    pure (.exchangeRate state.exchangeRate state.isUnattended)
  | .validators => pure (.validators st.validators)
  | .windows state startAfter limit => pure (.windows (queryWindows state startAfter limit st))
  | .withPermit permit .pendingClaims => do
    let account ← permitSigner validate deps env permit
    let claims ← queryPendingClaims account st
    pure (.pendingClaims claims)

end LstCore
