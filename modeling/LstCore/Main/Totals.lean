import LstCore.Proof.Mirror
import LstCore.Proof.World

/-!
# The cached totals

Whatever calls have been made, the cached stake and the cached rewards are the sums over
the validator set (`totals_agree`).
-/

namespace LstCore

open Lib

variable {st st' : Storage}

/-- **The cached totals agree with the set.** In every reachable storage the cached stake is
the sum of the validators' stake and the cached rewards are the sum of theirs, and every
call that succeeds there leaves them so. -/
theorem totals_agree (h : Reachable st) :
    (st.totals.totalBonded.val = (st.validators.map (·.bonded.val)).sum ∧
      st.totals.pendingRewards.val = (st.validators.map (·.pendingRewards.val)).sum) ∧
    ∀ e st', Step st e st' →
      st'.totals.totalBonded.val = (st'.validators.map (·.bonded.val)).sum ∧
      st'.totals.pendingRewards.val = (st'.validators.map (·.pendingRewards.val)).sum := by
  refine ⟨⟨h.mirrored.bonded, h.mirrored.pending⟩, fun e st' hs => ?_⟩
  have hM := (h.step hs).mirrored
  exact ⟨hM.bonded, hM.pending⟩

/-- A redelegation of a validator to itself, and one through a validator on to the next. -/
def devRebalance : Event := devTx devHalved "manager" 0 (.manager (.rebalance
  [⟨"validatortwo", "validatortwo", Uint128.new 7⟩,
    ⟨"validatortwo", "validatorthree", Uint128.new 5⟩,
    ⟨"validatorthree", "validatorfour", Uint128.new 5⟩]))

set_option maxRecDepth 10000 in
theorem totals_agree_rebalanced : ∃ w, (devClose ++ [devRebalance]).foldlM World.step devWorld = some w ∧
    w.store.validators.map (·.bonded.val) = [10000000, 59999995, 0, 5] ∧
    (w.store.totals.totalBonded.val = (w.store.validators.map (·.bonded.val)).sum ∧
      w.store.totals.pendingRewards.val = (w.store.validators.map (·.pendingRewards.val)).sum) ∧
    ∀ e st', Step w.store e st' →
      st'.totals.totalBonded.val = (st'.validators.map (·.bonded.val)).sum ∧
      st'.totals.pendingRewards.val = (st'.validators.map (·.pendingRewards.val)).sum := by
  have hrun : ((devClose ++ [devRebalance]).foldlM World.step devWorld).map
      (fun w => w.store.validators.map (·.bonded.val)) = some [10000000, 59999995, 0, 5] := by
    decide +kernel
  obtain ⟨w, hw, hs⟩ := Option.map_eq_some_iff.1 hrun
  exact ⟨w, hw, hs, totals_agree (World.replay_reachable devWorld_fresh hw)⟩

end LstCore
