import LstCore.Proof.Blocks
import LstCore.Proof.Mirror
import LstCore.Proof.Weights

/-!
# Slot headroom

The parameter check leaves one slot more than the windows that can be short of maturity at
one time, so that where no window is due for marking every validator has a free slot
(`slot_headroom`).
-/

namespace LstCore

open Lib

variable {b : Blocks}

/-- No window in flight is due to be marked. -/
def NoneDue (b : Blocks) : Prop :=
  ∀ id w, b.store.windows.lookup id = some w → w.state = .unbonding → b.now < w.maturesAt

/-- **The slots that windows can need, and what is left.** -/
structure Headroom (b : Blocks) (p : ProtocolParams) : Prop where
  unripe : b.store.windows.total
      (fun _ w => if w.state = .unbonding ∧ b.now < w.maturesAt then 1 else 0) ≤
    concurrentEntriesForWindow p.unbondingPeriodSecs p.unbondWindowSecs
  concurrent : concurrentEntriesForWindow p.unbondingPeriodSecs p.unbondWindowSecs =
    (p.unbondingPeriodSecs + p.unbondWindowSecs - 1) / p.unbondWindowSecs
  spare : concurrentEntriesForWindow p.unbondingPeriodSecs p.unbondWindowSecs + 1 ≤
    p.maxUnbondEntriesPerValidator
  room : NoneDue b → ∀ v ∈ b.store.validators,
    v.activeUnbondEntries < p.maxUnbondEntriesPerValidator
  plan : NoneDue b → ∀ amount, (∀ legs, Validators.planUndelegation b.store.validators amount
      p.maxUnbondEntriesPerValidator ≠ .ok legs) →
    (b.store.validators.map (·.bonded.val)).sum < amount.val

/-- A validator's counter is at most the number of windows short of maturity, where none is due. -/
theorem Blocks.Paced.uses_le (h : b.Paced) (hnone : NoneDue b) (a : String) :
    b.store.queue.uses a ≤ (b.store.queue.unripe b.now).length := by
  rw [← Queue.total_unripe h.reachable.booked.shape]
  refine Keymap.total_mono fun id w hw => ?_
  unfold Queue.holds
  split
  · rename_i hu
    rw [if_pos ⟨hu.1, hnone id w hw hu.1⟩]
  · exact Nat.zero_le _

/-- **Slot headroom.** At every time the windows in flight that have not matured are at most
the closings of one unbonding period, rounded up, which is at most the ceiling less one,
however late windows closed and whichever were empty. So where every due window has been
marked each validator is below the ceiling, and an undelegation can be planned unless the
stake is less than its amount. -/
theorem slot_headroom {es : List BlockEvent} (h : Blocks.Along es b) :
    Headroom b b.store.config.params := by
  have hP := h.paced
  have hT := hP.reachable.terms
  have hS := hP.reachable.booked.shape
  have hlen : (b.store.queue.unripe b.now).length ≤ closingsPerPeriod b.store.config.params :=
    hP.timed.unripe_length_le hS hP.short hT.window_pos
  have hfits := hT.fits
  have hroom : NoneDue b → ∀ v ∈ b.store.validators,
      v.activeUnbondEntries < b.store.config.params.maxUnbondEntriesPerValidator := by
    intro hnone v hv
    -- with none due the counters count only windows short of maturity
    have hcount : v.activeUnbondEntries = b.store.queue.uses v.address :=
      hP.reachable.slotted.counted (slot v) (List.mem_map_of_mem hv)
    have := hP.uses_le hnone v.address
    omega
  refine ⟨?_, hT.concurrent, ?_, hroom, fun hnone amount hfail => ?_⟩
  · rw [hT.concurrent]
    exact (Queue.total_unripe hS).trans_le hlen
  · rw [hT.concurrent]
    omega
  · by_contra hle
    -- with a slot free at every validator the whole stake can be drawn on
    obtain ⟨legs, hlegs⟩ := (Validators.planUndelegation_iff hP.reachable.weighted
      hP.reachable.mirrored.total_lt).2 (by
        rw [capacity_eq fun v hv _ => hroom hnone v hv]
        exact not_lt.1 hle)
    exact hfail legs hlegs

set_option maxRecDepth 10000 in
theorem slot_headroom_closed : ∃ es b, Blocks.Along es b ∧
    b.store.windows.total
      (fun _ w => if w.state = .unbonding ∧ b.now < w.maturesAt then 1 else 0) = 1 ∧
    Headroom b b.store.config.params := by
  have hrun : (devClosing.foldlM Blocks.step devBlocks).map (fun b => b.store.windows.total
      (fun _ w => if w.state = .unbonding ∧ b.now < w.maturesAt then 1 else 0)) = some 1 := by
    decide +kernel
  obtain ⟨b, hb, he⟩ := Option.map_eq_some_iff.1 hrun
  have ha := Blocks.along_replay devBlocks_fresh hb
  exact ⟨_, b, ha, he, slot_headroom ha⟩

end LstCore
