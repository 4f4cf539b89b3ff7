import LstCore.Lib.Act
import LstCore.Spec.Checks

/-!
# The keeper's passes

`index.ts`: the schedules and the pass, with the sync task of `tasks.ts` that a pass falls back on.
A pass asks the outside, where anything may happen between two questions; what it notes for the next
pass and what it logs stays when a later question throws. Clocks are read in milliseconds.
-/

namespace LstCore

open Lib

namespace Keeper

/-! ## The outside -/

/-- What the keeper asks of the outside. -/
structure Outside (σ : Type) extends Client σ where
  validators : Act String σ (List ValidatorEntry)
  windows : Option WindowState → Act String σ (List UnbondWindow)
  gasBalance : Act String σ ℕ
  /-- `Date.now()`. -/
  clock : Act String σ ℕ

variable {σ : Type}

/-- A transaction's failure is returned rather than thrown. -/
def Client.send (client : Client σ) (msg : ExecuteMsg) : Act String σ (Except String Unit) := fun s =>
  let (s, result) := client.execute msg s
  (s, .ok result)

/-- The state query, which throws. -/
def Client.look (client : Client σ) : Act String σ StateResponse := client.state

/-! ## Tasks -/

/-- How the sync task ends. -/
inductive Refresh
  | failed (calls : ℕ) (error : String)
  | fresh (calls : ℕ) (bonded : Uint128)
  | stale (calls : ℕ)
deriving DecidableEq

def Refresh.outcome (before : StateResponse) : Refresh → TaskOutcome
  | .failed calls error => ⟨"sync", .work, s!"failed after {calls}: {error}", none⟩
  | .fresh calls bonded => ⟨"sync", .work, s!"fresh after {calls} call(s), bonded {bonded.val}", none⟩
  | .stale calls =>
    ⟨"sync", .work, s!"still stale after {calls} calls — was {before.lastSyncTime}", none⟩

/-- The turns of the sync loop that are left, after `calls` of them. -/
def syncLoop (client : Client σ) (pageLimit : ℕ) : ℕ → ℕ → Act String σ Refresh
  | 0, calls => pure (.stale calls)
  | left + 1, calls => do
    let result ← client.send (.sync (some pageLimit))
    match result with
    | .error error => pure (.failed (calls + 1) error)
    | .ok () =>
      let state ← client.look
      if state.isUnattended then syncLoop client pageLimit left (calls + 1)
      else pure (.fresh (calls + 1) state.totalBonded)

/-- Refresh cached totals from the staking module. -/
def sync (client : Client σ) (pageLimit : ℕ) : Act String σ TaskOutcome := do
  let before ← client.look
  let refresh ← syncLoop client pageLimit maxTurns 0
  pure (refresh.outcome before)

/-- The compound task, which throws where the state query does. -/
def compoundTask (client : Client σ) (pageLimit : ℕ) : Act String σ TaskOutcome := do
  let sweep ← (compound client pageLimit : Act String σ Sweep)
  pure sweep.outcome

/-- A window task: it reads the windows in a state, then the clock, and does what it decides. -/
def windowTask (client : Outside σ) (state : WindowState)
    (task : (Option WindowState → List UnbondWindow) → ℕ → Decision) : Act String σ TaskOutcome := do
  let windows ← client.windows (some state)
  let now ← client.clock
  match task (fun _ => windows) (now / 1000) with
  | .report outcome => pure outcome
  | .send msg outcome =>
    let result ← client.send msg
    pure (outcome result)

/-! ## Schedules -/

/-- The interval is a ceiling rather than a cadence. -/
structure Schedule where
  lastRun : ℕ
  /-- None is positive infinity. -/
  deadline : Option ℕ
  intervalMs : ℕ
deriving DecidableEq

namespace Schedule

def new (intervalMs : ℕ) : Schedule := ⟨0, none, intervalMs⟩

/-- Whether a job is due. -/
def due (s : Schedule) (now : ℕ) : Bool :=
  match s.deadline with
  | none => s.lastRun + s.intervalMs ≤ now
  | some deadline => min (s.lastRun + s.intervalMs) deadline ≤ now

/-- Record a run. -/
def mark (s : Schedule) (now : ℕ) (deadline : Option ℕ) : Schedule :=
  { s with lastRun := now, deadline := deadline }

end Schedule

/-- The earliest real deadline among a set of outcomes, if any of them named one. -/
def soonest (outcomes : List TaskOutcome) : Option ℕ := (outcomes.filterMap (·.nextDue)).min?

/-! ## Passes -/

structure KeeperConfig where
  compoundIntervalMs : ℕ
  windowIntervalMs : ℕ
  pageLimit : ℕ
  checkOnly : Bool

/-- What is logged. -/
inductive Line
  | finding (f : Finding)
  | outcome (o : TaskOutcome)
deriving DecidableEq

/-- The outside, with what the keeper notes for itself. -/
structure Desk (σ : Type) where
  world : σ
  memory : Memory
  compound : Schedule
  window : Schedule
  log : List Line

/-- The desk of a keeper that starts. -/
def Desk.start (config : KeeperConfig) (world : σ) : Desk σ where
  world := world
  memory := .fresh
  compound := .new config.compoundIntervalMs
  window := .new config.windowIntervalMs
  log := []

namespace Desk

variable {α : Type}

def ask (x : Act String σ α) : Act String (Desk σ) α :=
  x.on (·.world) fun d s => { d with world := s }

/-- A check that goes by what is remembered, and notes what it has found. -/
def remembering (f : Memory → Memory × α) : Act String (Desk σ) α := fun d =>
  let (memory, a) := f d.memory
  ({ d with memory := memory }, .ok a)

def report (findings : List Finding) : Act String (Desk σ) Unit :=
  .modify fun d => { d with log := d.log ++ findings.map .finding }

def logOutcome (outcome : TaskOutcome) : Act String (Desk σ) Unit :=
  .modify fun d => { d with log := d.log ++ [.outcome outcome] }

def markWindow (now : ℕ) (deadline : Option ℕ) : Act String (Desk σ) Unit :=
  .modify fun d => { d with window := d.window.mark now deadline }

def markCompound (now : ℕ) : Act String (Desk σ) Unit :=
  .modify fun d => { d with compound := d.compound.mark now none }

end Desk

/-- The checks of a pass. -/
def runChecks (formatRate toFixed : ℕ → String) (client : Outside σ) (entryCeiling : ℕ) :
    Act String (Desk σ) (List Finding) := do
  let state ← Desk.ask client.look
  let validators ← Desk.ask client.validators
  let now ← Desk.ask client.clock
  let rate ← Desk.remembering (checkExchangeRate formatRate state)
  let drift ← Desk.remembering (checkValidatorDrift validators)
  let balance ← Desk.ask client.gasBalance
  pure ([checkFreshness state (now / 1000), rate, checkSolvency state] ++
    checkEntrySlots validators entryCeiling ++ drift ++ [checkGas toFixed balance])

/-- The window jobs of a pass, when they are due. -/
def windowUpkeep (client : Outside σ) (config : KeeperConfig) (now : ℕ) : Act String (Desk σ) Unit := do
  let desk ← Act.get
  if desk.window.due now then
    let advanced ← Desk.ask (windowTask client .open advanceWindow)
    let collected ← Desk.ask (windowTask client .unbonding fun windows now =>
      collectMatured windows now config.pageLimit)
    Desk.logOutcome advanced
    Desk.logOutcome collected
    Desk.markWindow now (soonest [advanced, collected])
  else pure ()

/-- The detail starts with "failed". -/
def TaskOutcome.failed (outcome : TaskOutcome) : Bool := "failed".toList.isPrefixOf outcome.detail.toList

/-- The sweep of a pass, when it is due or the cache is stale, and the plain sync it falls back on. -/
def sweep (client : Outside σ) (config : KeeperConfig) (now : ℕ) (stale : Bool) :
    Act String (Desk σ) Unit := do
  let desk ← Act.get
  if stale || desk.compound.due now then
    let outcome ← Desk.ask (compoundTask client.toClient config.pageLimit)
    Desk.logOutcome outcome
    Desk.markCompound now
    if stale && outcome.failed then
      let outcome ← Desk.ask (sync client.toClient config.pageLimit)
      Desk.logOutcome outcome
    else pure ()
  else pure ()

inductive Verdict
  | healthy
  | unhealthy
deriving DecidableEq

/-- The cache is stale, by what the checks found. -/
def foundStale (findings : List Finding) : Bool :=
  findings.any fun f => f.check = "freshness" ∧ f.severity ≠ .ok

/-- One pass. -/
def pass (formatRate toFixed : ℕ → String) (client : Outside σ) (config : KeeperConfig) :
    Act String (Desk σ) (Option Verdict) := do
  let now ← Desk.ask client.clock
  let findings ← runChecks formatRate toFixed client entryCeiling
  Desk.report findings
  if config.checkOnly then
    pure (some (if findings.any (·.severity = .alert) then .unhealthy else .healthy))
  else
    windowUpkeep client config now
    sweep client config now (foundStale findings)
    pure none

end Keeper

end LstCore
