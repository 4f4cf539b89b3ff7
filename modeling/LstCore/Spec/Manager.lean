import LstCore.Spec.Upkeep

/-!
# The manager and the entry checks

`execute_manager`, `execute_set_paused`, `migrate` and the parameter checks of
`contract.rs`.
-/

namespace LstCore

open Lib

/-- Reject manager limits that exceed what the code itself permits. -/
def validateLimits (limits : ManagerLimits) : Exec Unit :=
  if maxPerformanceFeeBps < limits.maxPerformanceFeeBps ∨
      LstCore.maxValidatorWeightBps < limits.maxValidatorWeightBps ∨
      limits.maxValidatorWeightBps = 0 then
    .error (.err .limitsExceedCode)
  else .ok ()

/-- Reject a parameter set that would make the protocol unsafe to operate. -/
def validateParams (params : ProtocolParams) : Exec Unit :=
  if maxPerformanceFeeBps < params.performanceFeeBps then
    .error (.err (.feeTooHigh params.performanceFeeBps maxPerformanceFeeBps))
  else if params.maxUnbondEntriesPerValidator = 0 ∨
      chainMaxUnbondEntries ≤ params.maxUnbondEntriesPerValidator then
    .error (.err (.badEntryCeiling params.maxUnbondEntriesPerValidator (chainMaxUnbondEntries - 1)))
  else
    let needed := requiredEntrySlots params.unbondingPeriodSecs params.unbondWindowSecs
    if params.maxUnbondEntriesPerValidator < needed then
      .error (.err (.windowTooShort params.unbondWindowSecs needed
        params.maxUnbondEntriesPerValidator))
    else .ok ()

/-! ## Rebalancing -/

/-- What the rebalancing loop carries. -/
structure RebalanceAcc where
  set : List ValidatorEntry
  messages : List CosmosMsg

/-- The position of a validator in the set. -/
def positionOf (set : List ValidatorEntry) (address : String) : Exec ℕ :=
  orErr (.unknownValidator address) (set.findIdx? fun v => v.address == address)

/-- One redelegation: off the source, onto a destination on the allowlist. -/
def rebalanceStep (allowlist : List String) (denom : String) (acc : RebalanceAcc)
    (step : RedelegateStep) : Exec RebalanceAcc :=
  if step.dstValidator ∉ allowlist then .error (.err (.validatorNotAllowed step.dstValidator))
  else do
    let src ← positionOf acc.set step.srcValidator
    let set ← modifyEntry acc.set src fun v =>
      if v.bonded < step.amount then
        .error (.err (.insufficientBalance step.amount v.bonded))
      else do
        let bonded ← sub v.bonded step.amount
        pure { v with bonded := bonded }
    let dst ← positionOf set step.dstValidator
    let set ← modifyEntry set dst fun v => do
      let bonded ← add v.bonded step.amount
      pure { v with bonded := bonded }
    pure ⟨set,
      acc.messages ++ [.redelegate step.srcValidator step.dstValidator ⟨denom, step.amount⟩]⟩

/-- The manager: fees and validator distribution, nothing else. -/
def executeManager (info : MessageInfo) (msg : ManagerMsg) (st : Storage) :
    Exec (Storage × Response) :=
  if info.sender ≠ st.config.manager then .error (.err .unauthorized)
  else
    match msg with
    | .setWeights weights => do
      Validators.validateManagedWeights weights st.allowlist st.config.limits.maxValidatorWeightBps
      pure ({ st with validators := Validators.applyWeights st.validators weights },
        ⟨[], some .ok⟩)
    | .setPerformanceFee bps =>
      if st.config.limits.maxPerformanceFeeBps < bps then
        .error (.err (.feeTooHigh bps st.config.limits.maxPerformanceFeeBps))
      else
        let params := { st.config.params with performanceFeeBps := bps }
        .ok ({ st with config := { st.config with params := params } }, ⟨[], some .ok⟩)
    | .rebalance plan => do
      let acc ← plan.foldlM (rebalanceStep st.allowlist st.config.bondedDenom) ⟨st.validators, []⟩
      pure ({ st with validators := acc.set }, ⟨acc.messages, some .ok⟩)

def executeSetPaused (info : MessageInfo) (paused : Bool) (st : Storage) :
    Exec (Storage × Response) :=
  if info.sender ≠ st.config.manager then .error (.err .unauthorized)
  else .ok ({ st with config := { st.config with paused := paused } }, ⟨[], none⟩)

/-- The manager's fee ceiling this version installs. -/
def migrationMaxPerformanceFeeBps : ℕ := 1500

/-- Code upgrade. -/
def migrate (st : Storage) : Exec (Storage × Response) := do
  let limits :=
    { st.config.limits with maxPerformanceFeeBps := migrationMaxPerformanceFeeBps }
  validateLimits limits
  pure ({ st with config := { st.config with limits := limits } }, ⟨[], none⟩)

end LstCore
