import LstCore.Spec.Refresh
import LstCore.Spec.Windows

/-!
# The withdrawal queue

The parts of `contract.rs` that move the queue: closing the open window, marking
windows matured, paying claims, and recording a claim.
-/

namespace LstCore

open Lib

def loadWindow (windows : Keymap ℕ UnbondWindow) (id : ℕ) : Exec UnbondWindow :=
  orErr (.windowNotOpen id) (windows.lookup id)

/-! ## Closing -/

/-- What the undelegation loop carries: the set, the validators used so far, and the
messages issued so far. -/
structure LegAcc where
  set : List ValidatorEntry
  used : List String
  messages : List CosmosMsg

/-- Issue one leg. The slot stays occupied until the window matures. -/
def issueLeg (denom : String) (acc : LegAcc) (leg : Validators.UnbondLeg) : Exec LegAcc := do
  let entry ← orPanic acc.set[leg.index]?
  pure {
    set := acc.set.set leg.index { entry with
      bonded := entry.bonded.satSub leg.amount
      activeUnbondEntries := min (entry.activeUnbondEntries + 1) u8Max }
    used := acc.used ++ [entry.address]
    messages := acc.messages ++ [.undelegate entry.address ⟨denom, leg.amount⟩] }

/-- Undelegate what a closing window owes, when it owes anything. -/
def undelegateWindow (st : Storage) (window : UnbondWindow) :
    Exec (Storage × UnbondWindow × List CosmosMsg) :=
  if window.scrtOwed = 0 then .ok (st, window, [])
  else do
    let legs ← Validators.planUndelegation st.validators window.scrtOwed
      st.config.params.maxUnbondEntriesPerValidator
    let acc ← legs.foldlM (issueLeg st.config.bondedDenom)
      ⟨st.validators, window.validatorsUsed, []⟩
    let scrtOwedUnbonding ← add st.totals.scrtOwedUnbonding window.scrtOwed
    pure ({ st with
        validators := acc.set
        totals := { st.totals with
          totalBonded := st.totals.totalBonded.satSub window.scrtOwed
          scrtOwedOpen := st.totals.scrtOwedOpen.satSub window.scrtOwed
          scrtOwedUnbonding := scrtOwedUnbonding } },
      { window with validatorsUsed := acc.used }, acc.messages)

/-- Save a closed window, and list it when its undelegations are in flight. -/
def Storage.fileClosed (st : Storage) (id : ℕ) (closed : UnbondWindow × Windows.Closure) : Storage :=
  let st := st.putWindow id closed.1
  if closed.2 = .unbonding then { st with activeWindows := st.activeWindows ++ [id] } else st

/-- Open the successor window. -/
def openNextWindow (env : Env) (st : Storage) : Exec (ℕ × Storage) := do
  let (id, st) ← allocWindowId st
  let next := Windows.open id env.time st.config.params.unbondWindowSecs
  pure (id, { st.putWindow id next with openWindow := id })

/-- What closing the open window did. -/
structure Closing where
  messages : List CosmosMsg
  closedId : ℕ
  nextId : ℕ
  undelegated : Uint128

/-- Close the open window, undelegate what it owes, and open its successor. -/
def closeOpenWindow (env : Env) (st : Storage) : Exec (Storage × Closing) := do
  let closingId := st.openWindow
  let window ← loadWindow st.windows closingId
  let (st, used, messages) ← undelegateWindow st window
  let st := st.fileClosed closingId
    (Windows.close used env.time st.config.params.unbondingPeriodSecs)
  let (nextId, st) ← openNextWindow env st
  pure (st, ⟨messages, closingId, nextId, window.scrtOwed⟩)

/-- Close the open window if it is overdue and its undelegation can be placed, and say
nothing otherwise. A panic while planning is not caught. -/
def closeWindowIfOverdue (env : Env) (st : Storage) : Exec (Storage × List CosmosMsg) := do
  let window ← loadWindow st.windows st.openWindow
  match Windows.assertClosable window env.time with
  | .error _ => pure (st, [])
  | .ok () =>
    let plan := if window.scrtOwed = 0 then .ok []
      else Validators.planUndelegation st.validators window.scrtOwed
        st.config.params.maxUnbondEntriesPerValidator
    match plan with
    | .error .panic => .error .panic
    | .error (.err _) => pure (st, [])
    | .ok _ => do
      let (st, closing) ← closeOpenWindow env st
      pure (st, closing.messages)

/-- Close the open window, issue its undelegations, and open the next one. -/
def executeAdvanceWindow (env : Env) (st : Storage) : Exec (Storage × Response) := do
  let window ← loadWindow st.windows st.openWindow
  Windows.assertClosable window env.time
  let (st, closing) ← closeOpenWindow env st
  pure (st, ⟨closing.messages,
    some (.advanceWindow closing.closedId closing.nextId closing.undelegated)⟩)

/-! ## Maturing -/

/-- What the maturing loop carries. -/
structure MatureAcc where
  windows : Keymap ℕ UnbondWindow
  spokenFor : Uint128
  matured : List ℕ
  validatorsToRelease : List String
  promisedTotal : Uint128
  realisedTotal : Uint128

/-- One turn of the maturing loop; nothing more happens once the limit is reached. -/
def matureStep (now limit : ℕ) (balance : Uint128) (acc : MatureAcc) (id : ℕ) : Exec MatureAcc :=
  if limit ≤ acc.matured.length then .ok acc
  else do
    let window ← loadWindow acc.windows id
    if Windows.isMature window now then do
      let window := Windows.mature window (balance.satSub acc.spokenFor)
      let realised := window.payable
      let spokenFor ← add acc.spokenFor realised
      let promisedTotal ← add acc.promisedTotal window.scrtOwed
      let realisedTotal ← add acc.realisedTotal realised
      pure {
        windows := acc.windows.insert id window
        spokenFor := spokenFor
        matured := acc.matured ++ [id]
        validatorsToRelease := acc.validatorsToRelease ++ window.validatorsUsed
        promisedTotal := promisedTotal
        realisedTotal := realisedTotal }
    else pure acc

/-- Money already spoken for by windows that matured earlier. -/
def spokenForBy (windows : Keymap ℕ UnbondWindow) (active : List ℕ) : Exec Uint128 :=
  active.foldlM (fun acc id => do
    let w ← loadWindow windows id
    if w.state = .matured then add acc w.outstanding else pure acc) 0

/-- Give one entry slot of the validator back. -/
def releaseSlot : List ValidatorEntry → String → List ValidatorEntry
  | [], _ => []
  | v :: vs, address =>
    if v.address = address then
      { v with activeUnbondEntries := v.activeUnbondEntries - 1 } :: vs
    else v :: releaseSlot vs address

/-- Move every window whose unbonding has elapsed into `Matured`, up to the limit. -/
def matureDueWindows (deps : Deps) (env : Env) (limit : ℕ) (st : Storage) :
    Exec (Storage × List ℕ) := do
  let balance ← liftStd (deps.queryBalance env.contract.address st.config.bondedDenom)
  let spokenFor ← spokenForBy st.windows st.activeWindows
  let acc ← st.activeWindows.foldlM (matureStep env.time (max limit 1) balance)
    ⟨st.windows, spokenFor, [], [], 0, 0⟩
  if acc.matured = [] then pure (st, [])
  else do
    let scrtOwedMatured ← add st.totals.scrtOwedMatured acc.realisedTotal
    pure ({ st with
        windows := acc.windows
        validators := acc.validatorsToRelease.foldl releaseSlot st.validators
        totals := { st.totals with
          scrtOwedUnbonding := st.totals.scrtOwedUnbonding.satSub acc.promisedTotal
          scrtOwedMatured := scrtOwedMatured } },
      acc.matured)

/-- `DEFAULT_SYNC_LIMIT`. -/
def defaultSyncLimit : ℕ := 5

/-- Mark windows whose unbonding period has elapsed as claimable. -/
def executeCollectMatured (deps : Deps) (env : Env) (limit : Option ℕ) (st : Storage) :
    Exec (Storage × Response) := do
  let (st, matured) ← matureDueWindows deps env (limit.getD defaultSyncLimit) st
  pure (st, ⟨[], some (.collectMatured matured)⟩)

/-! ## Claiming -/

/-- What the claim loop carries. -/
structure ClaimAcc where
  windows : Keymap ℕ UnbondWindow
  claims : Keymap (Addr × ℕ) ClaimRecord
  paid : Uint128
  settled : List ℕ

/-- One turn of the claim loop: pay, skip, or abort the whole transaction. -/
def claimStep (now : ℕ) (sender : Addr) (acc : ClaimAcc) (id : ℕ) : Exec ClaimAcc :=
  match acc.claims.lookup (sender, id) with
  | none => .ok acc
  | some claim =>
    if claim.claimed then .ok acc
    else do
      let window ← loadWindow acc.windows id
      match window.state with
      | .matured => do
        let payout ← Windows.payoutForClaim window claim.scrtOwed
        let scrtClaimed ← add window.scrtClaimed payout
        let window := { window with scrtClaimed := scrtClaimed }
        let drained := Windows.isDrained window
        let paid ← add acc.paid payout
        pure {
          windows := acc.windows.insert id
            (if drained then { window with state := .settled } else window)
          claims := acc.claims.insert (sender, id) { claim with claimed := true }
          paid := paid
          settled := if drained then acc.settled ++ [id] else acc.settled }
      | .unbonding => .error (.err (.windowNotMatured id window.maturesAt now))
      | _ => pure acc

/-- Drop fully settled windows from the active list. -/
def pruneSettledWindows (settled : List ℕ) (st : Storage) : Storage :=
  if settled = [] then st
  else { st with activeWindows := st.activeWindows.filter fun id => id ∉ settled }

/-- The windows a claim is made against: those given, or every one in the index. -/
def claimIds (sender : Addr) (windowIds : Option (List ℕ)) (st : Storage) : List ℕ :=
  windowIds.getD (st.claimIndex sender)

/-- Pay out a caller's claims against matured windows. -/
def executeClaimMatured (deps : Deps) (env : Env) (info : MessageInfo)
    (windowIds : Option (List ℕ)) (st : Storage) : Exec (Storage × Response) := do
  let (st, _) ← matureDueWindows deps env u32Max st
  let acc ← (claimIds info.sender windowIds st).foldlM (claimStep env.time info.sender)
    ⟨st.windows, st.claims, 0, []⟩
  if acc.paid = 0 then .error (.err .nothingToClaim)
  else
    pure (pruneSettledWindows acc.settled { st with
        windows := acc.windows
        claims := acc.claims
        totals := { st.totals with
          scrtOwedMatured := st.totals.scrtOwedMatured.satSub acc.paid } },
      ⟨[.bankSend info.sender [⟨st.config.bondedDenom, acc.paid⟩]],
        some (.claimMatured acc.paid acc.settled)⟩)

/-- Add a claim, merging with any the account already holds against the same window. -/
def recordClaim (claimant : Addr) (windowId : ℕ) (shares owed : Uint128) (st : Storage) :
    Exec Storage :=
  match st.claims.lookup (claimant, windowId) with
  | some existing => do
    let sharesBurned ← add existing.sharesBurned shares
    let scrtOwed ← add existing.scrtOwed owed
    let merged := { existing with sharesBurned := sharesBurned, scrtOwed := scrtOwed }
    pure { st with claims := st.claims.insert (claimant, windowId) merged }
  | none =>
    .ok { st with
      claims := st.claims.insert (claimant, windowId) ⟨windowId, shares, owed, false⟩
      claimIndex := Function.update st.claimIndex claimant (st.claimIndex claimant ++ [windowId]) }

end LstCore
