import LstCore.Spec.Keeper

/-!
# The keeper's checks

The other checks of `invariants.ts`, and what they carry from one pass to the next. A rate or a gas
balance is shown as a floating-point text, which is a parameter here.
-/

namespace LstCore

open Lib

namespace Keeper

/-- State carried between passes so drift can be detected at all. -/
structure Memory where
  lastExchangeRate : Option ℕ
  lastBondedByValidator : Keymap String ℕ

def Memory.fresh : Memory := ⟨none, ∅⟩

/-- A number of basis points as a percentage. -/
def percent (bps : ℕ) : String :=
  let whole := bps / 100
  let tenths := bps / 10 % 10
  let rest := bps % 100
  if rest = 0 then s!"{whole}"
  else if bps % 10 = 0 then s!"{whole}.{tenths}"
  else if rest < 10 then s!"{whole}.0{rest}"
  else s!"{whole}.{rest}"

/-- The exchange rate must never fall except through slashing. -/
def checkExchangeRate (formatRate : ℕ → String) (state : StateResponse) (memory : Memory) :
    Memory × Finding :=
  let rate := state.exchangeRate.val
  let memory' := { memory with lastExchangeRate := some rate }
  match memory.lastExchangeRate with
  | none =>
    let shown := formatRate rate
    (memory', ⟨.ok, "exchange-rate", s!"{shown} (first reading)"⟩)
  | some previous =>
    if previous ≤ rate then (memory', ⟨.ok, "exchange-rate", formatRate rate⟩)
    else
      let dropBps := (previous - rate) * 10000 / previous
      let fell := percent dropBps
      let before := formatRate previous
      let after := formatRate rate
      (memory', ⟨if 10 < dropBps then .alert else .warn, "exchange-rate",
        s!"fell {fell}% from {before} to {after} — expect a slashing event, investigate if there was none"⟩)

/-- Freshness gates deposits and withdrawals. `now` is the keeper's clock, in seconds. -/
def checkFreshness (state : StateResponse) (now : ℕ) : Finding :=
  if state.isUnattended then
    ⟨.alert, "freshness", "cached totals are stale — deposits and withdrawals are being refused"⟩
  else
    let age := (now : ℤ) - state.lastSyncTime
    ⟨.ok, "freshness", s!"synced {age}s ago"⟩

/-- The slots of a validator that the keeper takes for all. -/
def entryCeiling : ℕ := 6

/-- Unbonding entry slots must stay below the protocol ceiling. -/
def checkEntrySlots (validators : List ValidatorEntry) (ceiling : ℕ) : List Finding :=
  (validators.filter fun v => ceiling ≤ v.activeUnbondEntries + 1).map fun v =>
    ⟨if ceiling ≤ v.activeUnbondEntries then .alert else .warn, "unbond-entries",
      s!"{v.address} holds {v.activeUnbondEntries} of {ceiling} entry slots"⟩

/-- A validator whose stake shrank while nothing of it was unbonding. -/
def drifted (previous : Keymap String ℕ) (v : ValidatorEntry) : Option Finding :=
  match previous.lookup v.address with
  | none | some 0 => none
  | some was =>
    if v.bonded.val < was ∧ v.activeUnbondEntries = 0 then
      let lost := percent ((was - v.bonded.val) * 10000 / was)
      some ⟨.alert, "validator-drift",
        s!"{v.address} lost {lost}% of its delegation with no unbonding in flight — likely slashed or jailed"⟩
    else none

/-- The stake of each validator, as the next pass is to remember it. -/
def recorded (validators : List ValidatorEntry) : Keymap String ℕ :=
  validators.foldl (fun current v => current.insert v.address v.bonded.val) ∅

/-- A validator whose stake shrank without the protocol asking is a validator in trouble. -/
def checkValidatorDrift (validators : List ValidatorEntry) (memory : Memory) : Memory × List Finding :=
  ({ memory with lastBondedByValidator := recorded validators },
    validators.filterMap (drifted memory.lastBondedByValidator))

/-- The keeper's own gas. Upkeep stops when this runs out, and users notice before we do. -/
def checkGas (toFixed : ℕ → String) (balance : ℕ) : Finding :=
  let scrt := toFixed balance
  if balance = 0 then ⟨.alert, "keeper-gas", "keeper account is empty"⟩
  else if balance < 5000000 then ⟨.warn, "keeper-gas", s!"{scrt} SCRT left"⟩
  else ⟨.ok, "keeper-gas", s!"{scrt} SCRT"⟩

end Keeper

end LstCore
