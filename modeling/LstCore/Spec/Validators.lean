import Mathlib.Data.List.Sort
import LstCore.Spec.Math

/-!
# Validator set validation and stake placement

`validators.rs`: pure functions over a loaded set.
-/

namespace LstCore

open Lib

/-- The sum of an amount over the entries, which aborts on overflow. -/
def sumOf (f : ValidatorEntry → Uint128) (set : List ValidatorEntry) : Exec Uint128 :=
  set.foldlM (fun acc v => add acc (f v)) 0

/-- Change one entry of the set; indexing outside the set aborts. -/
def modifyEntry (set : List ValidatorEntry) (i : ℕ) (f : ValidatorEntry → Exec ValidatorEntry) :
    Exec (List ValidatorEntry) := do
  let v ← orPanic set[i]?
  let v' ← f v
  pure (set.set i v')

namespace Validators

/-- The first address that occurs twice. -/
def firstDuplicate : List String → List String → Option String
  | _, [] => none
  | seen, a :: rest => if a ∈ seen then some a else firstDuplicate (a :: seen) rest

/-- Reject a validator set that cannot be used safely. -/
def validateSet (validators : List ValidatorInit) : Exec Unit :=
  if validators = [] then .error (.err .emptyValidatorSet)
  else
    match firstDuplicate [] (validators.map (·.address)) with
    | some a => .error (.err (.duplicateValidator a))
    | none =>
      let sum := (validators.map (·.weightBps)).sum
      if u32Max < sum then .error .panic
      else if sum ≠ bpsDenom then .error (.err (.badWeightSum sum))
      else .ok ()

/-- Reject a weight assignment the manager is not entitled to make. -/
def validateManagedWeights (weights : List ValidatorInit) (allowlist : List String)
    (maxWeightBps : ℕ) : Exec Unit := do
  validateSet weights
  weights.foldlM (fun _ w =>
    if w.address ∉ allowlist then .error (.err (.validatorNotAllowed w.address))
    else if maxWeightBps < w.weightBps then
      .error (.err (.weightTooHigh w.address w.weightBps maxWeightBps))
    else .ok ()) ()

/-- A validator that enters the set with no stake. -/
def newEntry (w : ValidatorInit) : ValidatorEntry where
  address := w.address
  weightBps := w.weightBps
  status := .active
  bonded := 0
  pendingRewards := 0
  activeUnbondEntries := 0

/-- An entry under a new weight assignment: a validator without a place in it drains,
or is removed when it holds nothing. -/
def reweigh (weights : List ValidatorInit) (e : ValidatorEntry) : ValidatorEntry :=
  match weights.find? (fun w => w.address == e.address) with
  | some w => { e with weightBps := w.weightBps, status := .active }
  | none =>
    { e with weightBps := 0, status := if e.bonded = 0 then .removed else .draining }

/-- Apply a new weight assignment to the working set. -/
def applyWeights (set : List ValidatorEntry) (weights : List ValidatorInit) : List ValidatorEntry :=
  weights.foldl
    (fun set w => if set.any (fun e => e.address == w.address) then set else set ++ [newEntry w])
    (set.map (reweigh weights))

/-- Total stake currently bonded across the whole set. -/
def totalBonded (set : List ValidatorEntry) : Exec Uint128 := sumOf (·.bonded) set

/-- The target stake of a validator in a pool. -/
def target (pool : Uint128) (v : ValidatorEntry) : Exec Uint128 :=
  multiplyRatio pool v.weightBps bpsDenom

/-- Index of the validator that should receive the next delegation: the first one
furthest below its target among those that accept stake. -/
def selectForDelegation (set : List ValidatorEntry) (incoming : Uint128) : Exec ℕ := do
  let bonded ← totalBonded set
  let poolAfter ← orErr (.overflow "delegation target") (bonded.add? incoming)
  let best ← set.zipIdx.foldlM (fun (best : Option (ℕ × Uint128)) (v, idx) =>
    if v.status.acceptsStake then do
      let t ← target poolAfter v
      let deficit := t.satSub v.bonded
      match best with
      | some (i, d) => if deficit ≤ d then pure (some (i, d)) else pure (some (idx, deficit))
      | none => pure (some (idx, deficit))
    else pure best) none
  match best with
  | some (idx, _) => .ok idx
  | none => .error (.err .emptyValidatorSet)

/-- One leg of an undelegation, as an index into the validator set. -/
structure UnbondLeg where
  index : ℕ
  amount : Uint128
deriving DecidableEq, Repr

/-- A validator an undelegation can draw on. -/
structure Candidate where
  index : ℕ
  /-- 0 for a validator on its way out, 1 for an active one. -/
  drainFirst : ℕ
  surplus : Uint128
  bonded : Uint128
deriving DecidableEq, Repr

/-- The order in which candidates are drawn on: draining first, then by surplus, then
by size, then by position. -/
def Candidate.before (a b : Candidate) : Prop :=
  a.drainFirst < b.drainFirst ∨ a.drainFirst = b.drainFirst ∧
    (b.surplus < a.surplus ∨ b.surplus = a.surplus ∧
      (b.bonded < a.bonded ∨ b.bonded = a.bonded ∧ a.index ≤ b.index))

instance : DecidableRel Candidate.before := fun a b => by unfold Candidate.before; infer_instance

/-- A validator can be drawn on when it holds stake and has an entry slot left. -/
def eligible (maxEntries : ℕ) (v : ValidatorEntry) : Bool :=
  v.bonded ≠ 0 && v.activeUnbondEntries < maxEntries

/-- The candidate an eligible entry makes. -/
def candidate (pool : Uint128) (v : ValidatorEntry) (idx : ℕ) : Exec Candidate := do
  let t ← target pool v
  pure ⟨idx, if v.status = .active then 1 else 0, v.bonded.satSub t, v.bonded⟩

/-- Draw on the candidates in order until nothing remains. -/
def takeLegs : Uint128 → List Candidate → List UnbondLeg × Uint128
  | remaining, [] => ([], remaining)
  | remaining, c :: cs =>
    if remaining = 0 then ([], remaining)
    else
      let take := remaining.min c.bonded
      if take = 0 then takeLegs remaining cs
      else
        let rest := takeLegs (remaining.satSub take) cs
        (⟨c.index, take⟩ :: rest.1, rest.2)

/-- Spread an undelegation across the set. -/
def planUndelegation (set : List ValidatorEntry) (amount : Uint128) (maxEntries : ℕ) :
    Exec (List UnbondLeg) :=
  if amount = 0 then .ok []
  else do
    let pool ← totalBonded set
    let candidates ← (set.zipIdx.filter fun p => eligible maxEntries p.1).mapM
      fun p => candidate pool p.1 p.2
    let legs := takeLegs amount (candidates.insertionSort Candidate.before)
    if legs.2 ≠ 0 then .error (.err .noUnbondingCapacity) else .ok legs.1

end Validators

end LstCore
