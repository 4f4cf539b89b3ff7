import LstCore.Proof.World
import LstCore.Queue.Life

/-!
# The life cycle of the windows

The four stores of the queue fit each other in every reachable storage, and every call
takes each window along its life (`life_cycle`).
-/

namespace LstCore

open Lib

variable {st st' : Storage} {id : ℕ} {w : UnbondWindow}

/-- **The windows of a storage and what becomes of them.** -/
structure LifeCycle (st : Storage) : Prop where
  ids : ∀ id, (∃ w, st.windows.lookup id = some w) ↔ id < st.nextWindowId
  keyed : ∀ id w, st.windows.lookup id = some w → w.id = id
  newest : st.nextWindowId = st.openWindow + 1
  isOpen : ∀ id w, st.windows.lookup id = some w → (w.state = .open ↔ id = st.openWindow)
  active : ∀ id, id ∈ st.activeWindows ↔
    ∃ w, st.windows.lookup id = some w ∧ (w.state = .unbonding ∨ w.state = .matured)
  sorted : st.activeWindows.Pairwise (· < ·)
  claimed_le : ∀ id w, st.windows.lookup id = some w → w.scrtClaimed ≤ w.payable
  /-- A call takes a window along its life at the call's time, or leaves it alone. -/
  moves : ∀ e st', Step st e st' → ∀ id w, st.windows.lookup id = some w →
    ∃ w', st'.windows.lookup id = some w' ∧
      (w' = w ∨ ∃ now ∈ e.1.time, Relation.ReflTransGen (UnbondWindow.Life now) w w') ∧
      (w.state = .open → w'.state ≠ .open → ∃ now ∈ e.1.time, w.closesAt ≤ now)
  /-- After any number of calls it is a later state of the same window. -/
  ages : ∀ h st', Run Step st h st' → ∀ id w, st.windows.lookup id = some w →
    ∃ w', st'.windows.lookup id = some w' ∧ w.Aged w'

/-- A call takes a window along its life. -/
theorem Booked.step_lives {e : Call × Response} (hB : Booked st) (hs : Step st e st')
    (hw : st.windows.lookup id = some w) : ∃ w', st'.windows.lookup id = some w' ∧
      (w' = w ∨ ∃ now ∈ e.1.time, Relation.ReflTransGen (UnbondWindow.Life now) w w') := by
  obtain ⟨call, resp⟩ := e
  cases call with
  | migrate =>
    obtain ⟨rfl, -⟩ := migrate_ok hs
    exact ⟨w, hw, .inl rfl⟩
  | execute deps env info msg =>
    obtain ⟨-, hist, hm⟩ : Booked st' ∧ ∃ hist, Moved env.time st st' resp.messages hist :=
      step_moved hB hs (by simp [Call.time])
    -- every move of one call is made at the time of its block
    obtain ⟨w', hw', hl⟩ := Queue.lives hB.shape hB.claims hm.run hm.timed
      (show st.queue.windows.lookup id = some w from hw)
    exact ⟨w', hw', .inr ⟨env.time, rfl, hl⟩⟩

/-- A window is later the same window. -/
theorem Booked.step_aged {e : Call × Response} (hB : Booked st) (hs : Step st e st')
    (hw : st.windows.lookup id = some w) : ∃ w', st'.windows.lookup id = some w' ∧ w.Aged w' := by
  obtain ⟨w', hw', rfl | ⟨now, -, hl⟩⟩ := hB.step_lives hs hw
  · exact ⟨w', hw', .refl w'⟩
  · have hok : w.OK := hB.shape.ok id w hw
    exact ⟨w', hw', (UnbondWindow.aged_of_lives hok hl).1⟩

theorem Booked.run_aged {h : List (Call × Response)} (hB : Booked st) (hr : Run Step st h st')
    (hw : st.windows.lookup id = some w) : ∃ w', st'.windows.lookup id = some w' ∧ w.Aged w' := by
  induction hr with
  | nil => exact ⟨w, hw, .refl w⟩
  | cons hr hs ih =>
    obtain ⟨v, hv, hwv⟩ := ih
    obtain ⟨w', hw', hvw⟩ := (run_refines hB hr).1.step_aged hs hv
    exact ⟨w', hw', hwv.trans hvw⟩

/-- **The life cycle.** In every reachable storage the windows are exactly the ids handed
out, the newest one is the one that is open, and the active list holds those unbonding or
matured, in order. From there a window goes `Open`, `Unbonding`, `Matured`, `Settled`, or
straight to `Settled` when nothing was withdrawn; it leaves `Open` when it is due, what it
owes is then frozen, as is what it realised once that is set, and what it has paid never
falls and never exceeds what it can pay. -/
theorem life_cycle (h : Reachable st) : LifeCycle st := by
  have hB := h.booked
  have hS := hB.shape
  refine ⟨hS.mem, hS.keyed, hS.next, hS.isOpen, hS.active, hS.sorted, fun id w hw => ?_,
    fun e st' hs id w hw => ?_, fun es st' hr id w hw => hB.run_aged hr hw⟩
  · have := hB.claims.paid_add_due_le (show st.queue.windows.lookup id = some w from hw)
    rw [Word.le_def]
    omega
  · obtain ⟨w', hw', hl⟩ := hB.step_lives hs hw
    refine ⟨w', hw', hl, fun ho ho' => ?_⟩
    rcases hl with rfl | ⟨now, hnow, hl⟩
    · exact absurd ho ho'
    · exact ⟨now, hnow, UnbondWindow.lives_leaves_open hl ho ho'⟩

set_option maxRecDepth 10000 in
theorem life_cycle_claimed : ∃ w, devClaim.foldlM World.step devWorld = some w ∧
    (w.store.windows.lookup 0).map (·.state) = some .settled ∧ LifeCycle w.store := by
  have hrun : (devClaim.foldlM World.step devWorld).map
      (fun w => (w.store.windows.lookup 0).map (·.state)) = some (some .settled) := by
    decide +kernel
  obtain ⟨w, hw, hs⟩ := Option.map_eq_some_iff.1 hrun
  exact ⟨w, hw, hs, life_cycle (World.replay_reachable devWorld_fresh hw)⟩

end LstCore
