import LstCore.Proof.Mirror
import LstCore.Proof.Passage
import LstCore.Proof.Weights

/-!
# Closing an overdue window

An overdue window closes when the stake of the validators with a free slot covers what it
owes, and the numbers of the queue stay in range (`advance_iff`). Its liability was fixed
when the withdrawals were priced, and the stake can fall below it with every slot free
(`free_slots_close`). A slot is free again only once somebody marks the window that took
it, so windows due for marking can hold a later one back (`due_windows_hold_slots`).
-/

namespace LstCore

open Lib

variable {st : Storage} {w : UnbondWindow} {env : Env}

/-- `AdvanceWindow` succeeds, and undelegates exactly what the window owes. -/
def Advances (env : Env) (st : Storage) (w : UnbondWindow) : Prop :=
  ∀ deps info, ∃ st' resp, execute deps env info .advanceWindow st = .ok (st', resp) ∧
    undelegated resp.messages = w.scrtOwed.val

/-- What a window owes can be booked with the windows in flight, and there is an id for its
successor. -/
structure InRange (st : Storage) (w : UnbondWindow) : Prop where
  booked : w.scrtOwed ≠ 0 → st.totals.scrtOwedUnbonding.val + w.scrtOwed.val < 2 ^ 128
  id : st.nextWindowId + 1 ≤ u64Max

/-- The open window is past its closing time. -/
structure Overdue (env : Env) (st : Storage) (w : UnbondWindow) : Prop where
  lookup : st.windows.lookup st.openWindow = some w
  due : w.closesAt ≤ env.time

/-- The open window closes exactly when the free slots cover what it owes. -/
theorem advance_iff (h : Reachable st) (ho : Overdue env st w) : Advances env st w ↔
    w.scrtOwed.val ≤ capacity st.config.params.maxUnbondEntriesPerValidator st.validators ∧
      InRange st w := by
  have hopen : w.state = .open := (h.booked.shape.isOpen _ _ ho.lookup).2 rfl
  have hclosable := assertClosable_eq_ok.2 ⟨hopen, ho.due⟩
  have hiff : (∃ r, closeOpenWindow env st = .ok r) ↔ _ :=
    closeOpenWindow_iff h.weighted h.mirrored.total_lt ho.lookup
  constructor
  · intro hadv
    -- closing asks the chain nothing, so any answers will do
    obtain ⟨st', resp, he, -⟩ := hadv ⟨fun _ _ => .ok 0, fun _ _ => .ok none, fun _ => .ok none,
      fun a => .ok a⟩ ⟨"", []⟩
    obtain ⟨_, closing, -, -, -, hc, -⟩ := executeAdvanceWindow_ok he
    obtain ⟨hcap, hfit, hid⟩ := hiff.1 ⟨_, hc⟩
    exact ⟨hcap, hfit, hid⟩
  · rintro ⟨hcap, hrange⟩ deps info
    obtain ⟨⟨st', closing⟩, hc⟩ := hiff.2 ⟨hcap, hrange.booked, hrange.id⟩
    obtain ⟨used, hund, -⟩ := closeOpenWindow_ok ho.lookup hopen ho.due hc
    refine ⟨st', ⟨closing.messages, some (.advanceWindow closing.closedId closing.nextId
      closing.undelegated)⟩, ?_, (hund.undelegations h.slotted).1⟩
    show executeAdvanceWindow env st = _
    unfold executeAdvanceWindow
    rw [loadWindow_eq_ok.2 ho.lookup, ok_bind, hclosable, ok_bind, hc]
    rfl

/-- **With every slot free** an overdue window closes exactly when the stake has not fallen
below what it owes. -/
theorem free_slots_close (h : Reachable st) (ho : Overdue env st w)
    (hfree : ∀ v ∈ st.validators, v.bonded ≠ 0 →
      v.activeUnbondEntries < st.config.params.maxUnbondEntriesPerValidator) :
    Advances env st w ↔ w.scrtOwed ≤ st.totals.totalBonded ∧ InRange st w := by
  rw [advance_iff h ho, capacity_eq hfree, Word.le_def, h.mirrored.bonded]

/-! ## A slashed validator -/

/-- What the chain reports after half of the second validator's stake is slashed. -/
def devSlashed : Deps := devView (Uint128.new 10000000)
  [("validatorone", Uint128.new 10000000, 0), ("validatortwo", Uint128.new 50000000, 0)]

/-- The user withdraws the whole deposit; the second validator is slashed, and anyone syncs;
the window falls due. -/
def devSlashing : List Event :=
  [devBootstrap, devDeposit, devTx devBonded "token" 0 (devUnbond "user" (Uint128.new 100000000)),
    devTx devSlashed "keeper" 0 (.sync none), .time (devStart + 5 * 86400)]

/-- What a stuck window looks like: overdue, its slots free or covered, and still refused. -/
def refused (w : World) : Bool :=
  (executeAdvanceWindow w.env w.store).toOption.isNone

theorem not_advances {v : World} (h : refused v = true) : ¬ Advances v.env v.store w := by
  intro hadv
  obtain ⟨st', resp, he, -⟩ := hadv (devView 0 []) ⟨"", []⟩
  have he : executeAdvanceWindow v.env v.store = .ok (st', resp) := he
  simp [refused, he, Except.toOption] at h

set_option maxRecDepth 10000 in
/-- The window owes 100 SCRT and 60 are bonded: it does not close, with every slot free. -/
theorem slashed_window_stuck : ¬ ∀ (st : Storage) (w : UnbondWindow) (env : Env), Reachable st →
    Overdue env st w →
    (∀ v ∈ st.validators, v.bonded ≠ 0 →
      v.activeUnbondEntries < st.config.params.maxUnbondEntriesPerValidator) →
    Advances env st w := by
  have hrun : (devSlashing.foldlM World.step devWorld).map (fun v =>
      ((v.store.windows.lookup v.store.openWindow).map fun w => decide (w.closesAt ≤ v.now),
        decide (∀ u ∈ v.store.validators, u.bonded ≠ 0 →
          u.activeUnbondEntries < v.store.config.params.maxUnbondEntriesPerValidator),
        refused v)) = some (some true, true, true) := by decide +kernel
  obtain ⟨v, hv, hs⟩ := Option.map_eq_some_iff.1 hrun
  simp only [Prod.mk.injEq, Option.map_eq_some_iff, decide_eq_true_eq] at hs
  obtain ⟨⟨w, hw, hdue⟩, hfree, href⟩ := hs
  exact fun hall => not_advances href
    (hall v.store w v.env (World.replay_reachable devWorld_fresh hv) ⟨hw, hdue⟩ hfree)

/-- The withdrawal of 40 SCRT, when its window falls due. -/
def devFallsDue : List Event := [devBootstrap, devDeposit, devWithdraw, .time (devStart + 5 * 86400)]

set_option maxRecDepth 10000 in
theorem free_slots_close_due : ∃ (st : Storage) (w : UnbondWindow) (env : Env), Reachable st ∧
    Overdue env st w ∧ w.scrtOwed = Uint128.new 40000000 ∧ Advances env st w := by
  have hrun : (devFallsDue.foldlM World.step devWorld).map (fun v =>
      ((v.store.windows.lookup v.store.openWindow).map fun w => decide (w.closesAt ≤ v.now ∧
          w.scrtOwed = Uint128.new 40000000 ∧ w.scrtOwed ≤ v.store.totals.totalBonded ∧
          v.store.totals.scrtOwedUnbonding.val + w.scrtOwed.val < 2 ^ 128),
        decide ((∀ u ∈ v.store.validators, u.bonded ≠ 0 →
          u.activeUnbondEntries < v.store.config.params.maxUnbondEntriesPerValidator) ∧
          v.store.nextWindowId + 1 ≤ u64Max))) = some (some true, true) := by decide +kernel
  obtain ⟨v, hv, hs⟩ := Option.map_eq_some_iff.1 hrun
  simp only [Prod.mk.injEq, Option.map_eq_some_iff, decide_eq_true_eq] at hs
  obtain ⟨⟨w, hw, hdue, howed, hle, hfit⟩, hfree, hid⟩ := hs
  have hr := World.replay_reachable devWorld_fresh hv
  exact ⟨v.store, w, v.env, hr, ⟨hw, hdue⟩, howed,
    (free_slots_close hr ⟨hw, hdue⟩ hfree).2 ⟨hle, fun _ => hfit, hid⟩⟩

/-! ## Windows due for marking -/

/-- How many windows in flight that drew on a validator have not matured. -/
def unripeUses (now : ℕ) (st : Storage) (a : String) : ℕ :=
  st.windows.total fun _ w =>
    if w.state = .unbonding ∧ now < w.maturesAt ∧ a ∈ w.validatorsUsed then 1 else 0

/-- The validators below the ceiling, with only windows that have not matured counted, hold what
the window owes. -/
def Covered (now : ℕ) (st : Storage) (w : UnbondWindow) : Prop :=
  w.scrtOwed.val ≤ total (·.bonded) (st.validators.filter fun v =>
    unripeUses now st v.address < st.config.params.maxUnbondEntriesPerValidator)

/-- **Windows due for marking hold slots**: where the stake covered as above ought to be enough,
it is exactly when the stake of the validators whose counters are below the ceiling is, and the
counters still count the windows that are due. -/
theorem due_windows_hold_slots (h : Reachable st) (ho : Overdue env st w) :
    (Covered env.time st w → Advances env st w) ↔ (Covered env.time st w →
      w.scrtOwed.val ≤ capacity st.config.params.maxUnbondEntriesPerValidator st.validators ∧
        InRange st w) :=
  imp_congr_right fun _ => advance_iff h ho

/-- What the chain reports once `n` withdrawals of 1 SCRT have closed, all drawn from the second
validator. -/
def devDrawn (n : ℕ) : Deps := devView (Uint128.new (110000000 - n * 1000000))
  [("validatorone", Uint128.new 10000000, 0),
    ("validatortwo", Uint128.new (100000000 - n * 1000000), 0)]

/-- A withdrawal of 1 SCRT, and five days later its window closes. -/
def devRound (n : ℕ) : List Event :=
  [devTx (devDrawn n) "token" 0 (devUnbond "user" (Uint128.new 1000000)),
    .time (devStart + (n + 1) * (5 * 86400)), devTx (devDrawn n) "keeper" 0 .advanceWindow]

/-- Six windows close, and a withdrawal of 40 SCRT waits in the seventh when it falls due. -/
def devSeven : List Event :=
  [devBootstrap, devDeposit] ++ (List.range 6).flatMap devRound ++
    [devTx (devDrawn 6) "token" 0 (devUnbond "user" (Uint128.new 40000000)),
      .time (devStart + 7 * (5 * 86400))]

set_option maxRecDepth 10000 in
/-- Two of the six windows are due for marking, and still hold the slots that the seventh
needs. -/
theorem due_windows_stuck : ¬ ∀ (st : Storage) (w : UnbondWindow) (env : Env), Reachable st →
    Overdue env st w → Covered env.time st w → Advances env st w := by
  have hrun : (devSeven.foldlM World.step devWorld).map (fun v =>
      ((v.store.windows.lookup v.store.openWindow).map fun w =>
        decide (w.closesAt ≤ v.now ∧ w.scrtOwed.val ≤ total (·.bonded)
          (v.store.validators.filter fun u => unripeUses v.now v.store u.address <
            v.store.config.params.maxUnbondEntriesPerValidator)), refused v)) =
      some (some true, true) := by decide +kernel
  obtain ⟨v, hv, hs⟩ := Option.map_eq_some_iff.1 hrun
  simp only [Prod.mk.injEq, Option.map_eq_some_iff, decide_eq_true_eq] at hs
  obtain ⟨⟨w, hw, hdue, hcov⟩, href⟩ := hs
  exact fun hall => not_advances href
    (hall v.store w v.env (World.replay_reachable devWorld_fresh hv) ⟨hw, hdue⟩ hcov)

set_option maxRecDepth 10000 in
theorem due_windows_hold_slots_due : ∃ (st : Storage) (w : UnbondWindow) (env : Env), Reachable st ∧
    Overdue env st w ∧ Covered env.time st w ∧ ((Covered env.time st w → Advances env st w) ↔
      (Covered env.time st w →
        w.scrtOwed.val ≤ capacity st.config.params.maxUnbondEntriesPerValidator st.validators ∧
          InRange st w)) := by
  have hrun : (devFallsDue.foldlM World.step devWorld).map (fun v =>
      (v.store.windows.lookup v.store.openWindow).map fun w =>
        decide (w.closesAt ≤ v.now ∧ w.scrtOwed.val ≤ total (·.bonded)
          (v.store.validators.filter fun u => unripeUses v.now v.store u.address <
            v.store.config.params.maxUnbondEntriesPerValidator))) = some (some true) := by
    decide +kernel
  obtain ⟨v, hv, hs⟩ := Option.map_eq_some_iff.1 hrun
  simp only [Option.map_eq_some_iff, decide_eq_true_eq] at hs
  obtain ⟨w, hw, hdue, hcov⟩ := hs
  have hr := World.replay_reachable devWorld_fresh hv
  exact ⟨v.store, w, v.env, hr, ⟨hw, hdue⟩, hcov, due_windows_hold_slots hr ⟨hw, hdue⟩⟩

end LstCore
