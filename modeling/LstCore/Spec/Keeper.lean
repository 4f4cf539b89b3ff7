import LstCore.Spec.Queries

/-!
# The keeper

The upkeep tasks of `tasks.ts` with the calls of `client.ts` they make, and the solvency check
of `invariants.ts`. The keeper runs outside the chain. What it knows is what the contract's
queries answer, and a transaction of its own either goes through or fails with a reason.
-/

namespace LstCore

open Lib

namespace Keeper

/-! ## Tasks -/

inductive Did
  | nothing
  | work
deriving DecidableEq, Repr

structure TaskOutcome where
  task : String
  did : Did
  detail : String
  /-- When this task next has something to do, in milliseconds. -/
  nextDue : Option ℕ
deriving DecidableEq, Repr

def nothing (task detail : String) (nextDue : Option ℕ) : TaskOutcome :=
  ⟨task, .nothing, detail, nextDue⟩

/-- What a task that sends at most one message does: report, or send and report how it ended. -/
inductive Decision
  | report (outcome : TaskOutcome)
  | send (msg : ExecuteMsg) (outcome : Except String Unit → TaskOutcome)

/-- The message a task sends, if it sends one. -/
def Decision.sends : Decision → Option ExecuteMsg
  | .report _ => none
  | .send msg _ => some msg

/-- `Keeper.windows`: one page of 50. -/
def windows (state : Option WindowState) (st : Storage) : List UnbondWindow :=
  queryWindows state none (some 50) st

/-- Close the open window if its time has come. -/
def advanceWindow (windows : Option WindowState → List UnbondWindow) (now : ℕ) : Decision :=
  match (windows (some .open)).head? with
  | none => .report (nothing "advance-window" "no open window" none)
  | some w =>
    if now < w.closesAt then
      let mins := (w.closesAt - now + 59) / 60
      .report (nothing "advance-window" s!"window {w.id} closes in {mins} min"
        (some (w.closesAt * 1000)))
    else .send .advanceWindow fun
      | .ok () => ⟨"advance-window", .work, s!"closed window {w.id}", none⟩
      | .error error => ⟨"advance-window", .work, s!"failed: {error}", none⟩

/-- Mark windows whose unbonding period has elapsed as claimable. -/
def collectMatured (windows : Option WindowState → List UnbondWindow) (now pageLimit : ℕ) :
    Decision :=
  let unbonding := windows (some .unbonding)
  let due := unbonding.filter fun w => w.maturesAt ≤ now
  if due = [] then
    let next := (unbonding.map (·.maturesAt)).min?
    -- a time of zero reads as no time
    let detail := match next with
      | none | some 0 => "nothing unbonding"
      | some next =>
        let hours := (next - now + 3599) / 3600
        s!"next matures in {hours} h"
    .report (nothing "collect-matured" detail (next.map (· * 1000)))
  else .send (.collectMatured (some pageLimit)) fun
    | .ok () =>
      let ids := String.intercalate ", " (due.map fun w => toString w.id)
      ⟨"collect-matured", .work, s!"collected {due.length} window(s): {ids}", none⟩
    | .error error => ⟨"collect-matured", .work, s!"failed: {error}", none⟩

/-! ## Compounding -/

/-- What the compound task asks of the client. Each call finds the world in some state and
leaves it in another. -/
structure Client (σ : Type) where
  execute : ExecuteMsg → σ → σ × Except String Unit
  /-- The state query, which throws when it fails. -/
  state : σ → σ × Except String StateResponse

/-- How the compound task ends. -/
inductive Sweep
  | failed (calls : ℕ) (error : String)
  | swept (calls : ℕ)
  | incomplete (calls : ℕ)
deriving DecidableEq, Repr

def Sweep.outcome : Sweep → TaskOutcome
  | .failed calls error =>
    ⟨"compound", if 1 < calls then .work else .nothing, s!"failed after {calls}: {error}", none⟩
  | .swept calls => ⟨"compound", .work, s!"swept in {calls} call(s)", none⟩
  | .incomplete calls => ⟨"compound", .work, s!"incomplete after {calls} calls", none⟩

/-- What the task takes for a finished sweep: a fresh cache and no pending rewards. -/
def looksSwept (state : StateResponse) : Bool := !state.isUnattended && state.pendingRewards = 0

/-- The turns of the loop that are left, after `calls` of them. -/
def compoundLoop {σ : Type} (client : Client σ) (pageLimit : ℕ) :
    ℕ → ℕ → σ → σ × Except String Sweep
  | 0, calls, s => (s, .ok (.incomplete calls))
  | left + 1, calls, s =>
    match client.execute (.compound (some pageLimit)) s with
    | (s, .error error) => (s, .ok (.failed (calls + 1) error))
    | (s, .ok ()) =>
      match client.state s with
      | (s, .error error) => (s, .error error)
      | (s, .ok state) =>
        if looksSwept state then (s, .ok (.swept (calls + 1)))
        else compoundLoop client pageLimit left (calls + 1) s

/-- Turns of the loop, so that a misconfigured page limit cannot spin forever. -/
def maxTurns : ℕ := 20

/-- Harvest rewards, take the protocol's cut, restake the rest. -/
def compound {σ : Type} (client : Client σ) (pageLimit : ℕ) (s : σ) : σ × Except String Sweep :=
  compoundLoop client pageLimit maxTurns 0 s

/-! ## Checks -/

inductive Severity
  | ok
  | warn
  | alert
deriving DecidableEq, Repr

structure Finding where
  severity : Severity
  check : String
  detail : String
deriving DecidableEq, Repr

/-- The protocol must not owe more than it holds. -/
def checkSolvency (state : StateResponse) : Finding :=
  let assets := state.totalBonded.val + state.pendingRewards.val + state.liquidUnallocated.val
  let owedToHolders := state.totalSupply.val * state.exchangeRate.val / rateScale
  if owedToHolders ≤ assets then ⟨.ok, "solvency", s!"{assets} backing {owedToHolders}"⟩
  else ⟨.alert, "solvency", s!"assets {assets} do not cover {owedToHolders} owed to holders"⟩

end Keeper

end LstCore
