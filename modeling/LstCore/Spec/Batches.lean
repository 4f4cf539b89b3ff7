import LstCore.Spec.Browser
import LstCore.Spec.Staking

/-!
# Upkeep in one transaction

`runUpkeep` and `UPKEEP_MSG` of `protocol.ts`, and the tasks that the button of the keeper page runs.
The messages of a transaction run one after the other, and all of them or none.
-/

namespace LstCore

open Lib

namespace Browser

/-- `MAX_VALIDATORS`, the page that every task asks for. -/
def maxValidators : ℕ := 20

/-- `UPKEEP_MSG`. -/
def upkeepMsg : UpkeepTask → ExecuteMsg
  | .sync => .sync (some maxValidators)
  | .compound => .compound (some maxValidators)
  | .advanceWindow => .advanceWindow
  | .collectMatured => .collectMatured (some maxValidators)

/-- What `runUpkeep` throws. -/
inductive Thrown
  | nothingDue
  | failed
deriving DecidableEq

/-- One message of the transaction. -/
def runTask (view : Deps) (sender : Addr) (c : Chain) (task : UpkeepTask) : Option Chain :=
  (c.step (.call view ⟨sender, []⟩ (upkeepMsg task))).map (·.1)

/-- Run upkeep, as anybody may. -/
def runUpkeep (view : Deps) (sender : Addr) (tasks : List UpkeepTask) (c : Chain) :
    Except Thrown Chain :=
  if tasks = [] then .error .nothingDue
  else
    match tasks.foldlM (runTask view sender) c with
    | some c => .ok c
    | none => .error .failed

/-- The tasks that the button runs: those shown as due, in the order of the page. -/
def dueTasks (items : List UpkeepItem) : List UpkeepTask := (items.filter (·.due)).map (·.task)

end Browser

end LstCore
