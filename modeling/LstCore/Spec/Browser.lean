import LstCore.Spec.Queries

/-!
# The browser's keeper page

`assess` of `upkeep.ts` and `fetchWindows` of `protocol.ts`: what the page says is due. An
amount is shown as `(x / 1e6).toFixed(4)`, a floating-point text that is a parameter here, and
the configuration only has to have been read.
-/

namespace LstCore

open Lib

namespace Browser

inductive UpkeepTask
  | compound
  | advanceWindow
  | collectMatured
  | sync
deriving DecidableEq, Repr

structure UpkeepItem where
  task : UpkeepTask
  title : String
  /-- Why it is or is not due. -/
  detail : String
  due : Bool
  /-- What running it achieves. -/
  effect : String
deriving DecidableEq, Repr

/-- `fetchWindows`: one page of 50. -/
def fetchWindows (state : Option WindowState) (st : Storage) : List UnbondWindow :=
  queryWindows state none (some 50) st

/-- Below this, harvesting costs more gas than the rewards are worth collecting. -/
def compoundFloor : ℕ := 1000000

/-- A quotient rounded to the nearest whole number, halves up. -/
def rounded (a b : ℕ) : ℕ := (a + b / 2) / b

def humanise (seconds : ℕ) : String :=
  if seconds < 90 then s!"{seconds}s"
  else if seconds < 5400 then
    let mins := rounded seconds 60
    s!"{mins} min"
  else if seconds < 172800 then
    let hours := rounded seconds 3600
    s!"{hours} h"
  else
    let days := rounded seconds 86400
    s!"{days} days"

/-- What the protocol needs doing right now. Nothing is said before the state and the
configuration have been read. -/
def assess {γ : Type} (toFixed : ℕ → String) (state : Option StateResponse) (config : Option γ)
    (windows : List UnbondWindow) (rewardsNow : Option ℕ) (now : ℕ) : List UpkeepItem :=
  match state, config with
  | some state, some _ =>
    let openWindow := windows.find? fun w => w.state = .open
    let overdue := openWindow.elim false fun w => w.closesAt ≤ now
    let ripe := windows.filter fun w => w.state = .unbonding ∧ w.maturesAt ≤ now
    let rewards := rewardsNow.getD state.pendingRewards.val
    let amount := toFixed rewards
    let age := humanise (now - state.lastSyncTime)
    [{ task := .compound
       title := "Harvest and restake rewards"
       due := compoundFloor ≤ rewards
       detail :=
         if compoundFloor ≤ rewards then s!"{amount} SCRT of rewards are sitting at the validators."
         else s!"Only {amount} SCRT accrued so far — not yet worth the gas."
       effect := "Withdraws them, takes the protocol's fee, and delegates the rest. This is what makes the exchange rate rise." },
     { task := .advanceWindow
       title := "Close the withdrawal window"
       due := overdue
       detail := match openWindow with
         | none => "No window is open."
         | some w =>
           let owed := toFixed w.scrtOwed.val
           let left := humanise (w.closesAt - now)
           if overdue then
             s!"Window #{w.id} passed its closing time and is holding {owed} SCRT of requests."
           else s!"Window #{w.id} closes in {left}."
       effect := "Starts the unbonding clock for everyone in it. Until this runs, their three weeks have not begun." },
     { task := .collectMatured
       title := "Mark finished windows claimable"
       due := 0 < ripe.length
       detail :=
         let has := if ripe.length = 1 then " has" else "s have"
         if 0 < ripe.length then
           s!"{ripe.length} window{has} finished unbonding and the SCRT has arrived."
         else "Nothing has finished unbonding."
       effect := "Books what came back so holders can claim it. Claims do this for themselves now, so this only helps people who have not asked yet." },
     { task := .sync
       title := "Refresh the cached figures"
       due := state.isUnattended
       detail :=
         if state.isUnattended then s!"Last refreshed {age} ago, longer than the protocol expects."
         else s!"Refreshed {age} ago."
       effect := "Re-reads every delegation so the published rate and validator figures are current. Deposits and withdrawals already do this for themselves." }]
  | _, _ => []

/-- The page shows a task as due. -/
def isDue (task : UpkeepTask) (items : List UpkeepItem) : Bool :=
  items.any fun item => item.task = task ∧ item.due

end Browser

end LstCore
