import LstCore.Proof.Capacity
import LstCore.Proof.Roster

/-!
# Weights stay below the whole

* `applyWeights_weighted`: a weight assignment gives no weight above the whole.
* `step_weighted`: every call keeps every weight at most the whole.
* `Reachable.weighted`: so it holds in every reachable storage.
-/

namespace LstCore

open Lib

variable {st st' : Storage} {set set' : List ValidatorEntry}

/-- The weights are on the roster. -/
theorem Weighted.of_roster (h : Weighted set) (hr : roster set' = roster set) : Weighted set' := by
  intro v hv
  have hmem : (v.address, v.weightBps) ∈ roster set := hr ▸ List.mem_map_of_mem hv
  obtain ⟨u, hu, he⟩ := List.mem_map.1 hmem
  rw [Prod.mk.injEq] at he
  rw [← he.2]
  exact h u hu

/-! ## A weight assignment -/

/-- Weights that a set can be given add up to the whole. -/
theorem validateSet_sum {weights : List ValidatorInit}
    (h : Validators.validateSet weights = .ok ()) : (weights.map (·.weightBps)).sum = bpsDenom := by
  unfold Validators.validateSet at h
  rw [guard_eq_ok] at h
  obtain ⟨-, h⟩ := h
  split at h
  · simp at h
  · simp only [guard_eq_ok, ne_eq, not_not] at h
    exact h.2.1

theorem validateSet_le {weights : List ValidatorInit} (h : Validators.validateSet weights = .ok ()) :
    ∀ w ∈ weights, w.weightBps ≤ bpsDenom := by
  intro w hw
  rw [← validateSet_sum h]
  exact List.single_le_sum (fun _ _ => Nat.zero_le _) _ (List.mem_map_of_mem hw)

theorem applyWeights_weighted {weights : List ValidatorInit} (set : List ValidatorEntry)
    (h : Validators.validateSet weights = .ok ()) :
    Weighted (Validators.applyWeights set weights) := by
  have hle := validateSet_le h
  have hre : Weighted (set.map (Validators.reweigh weights)) := by
    intro u hu
    obtain ⟨v, -, rfl⟩ := List.mem_map.1 hu
    unfold Validators.reweigh
    split
    · rename_i w hw
      exact hle w (List.mem_of_find?_eq_some hw)
    · exact Nat.zero_le _
  -- the entries that are appended get the weights assigned
  have hadd : ∀ (ws : List ValidatorInit), (∀ w ∈ ws, w.weightBps ≤ bpsDenom) →
      ∀ set : List ValidatorEntry, Weighted set →
        Weighted (ws.foldl (fun set w => if set.any (fun e => e.address == w.address) then set
          else set ++ [Validators.newEntry w]) set) := by
    intro ws
    induction ws with
    | nil => exact fun _ _ h => h
    | cons w ws ih =>
      intro hws set hset
      refine ih (fun u hu => hws u (List.mem_cons_of_mem w hu)) _ ?_
      dsimp only
      split
      · exact hset
      · intro u hu
        rcases List.mem_append.1 hu with hu | hu
        · exact hset u hu
        · rw [List.mem_singleton.1 hu]
          exact hws w List.mem_cons_self
  exact hadd weights hle _ hre

/-! ## Every call -/

/-- **Every call keeps the weights below the whole.** -/
theorem step_weighted {e : Call × Response} (h : Weighted st.validators) (hB : Booked st)
    (hs : Step st e st') : Weighted st'.validators := by
  obtain ⟨call, resp⟩ := e
  cases call with
  | migrate =>
    obtain ⟨rfl, -⟩ := migrate_ok hs
    exact h
  | execute deps env info msg =>
    have he : execute deps env info msg st = .ok (st', resp) := hs
    cases msg with
    | sync limit =>
      obtain ⟨s, rfl, -⟩ := executeSync_ok he
      exact h.of_roster s.roster_next
    | compound limit =>
      obtain ⟨c, rfl, -⟩ := executeCompound_ok he
      exact h.of_roster c.roster_next
    | manager m =>
      rcases executeManager_steady he with ⟨weights, hv, rfl⟩ | hst
      · exact applyWeights_weighted _ hv
      · exact h.of_roster hst.roster
    | _ => exact h.of_roster (execute_steady hB rfl he).roster

/-- **The weights are below the whole in every reachable storage.** -/
theorem Reachable.weighted (h : Reachable st) : Weighted st.validators := by
  refine (h.inv (P := fun st => Booked st ∧ Weighted st.validators) ?_ ?_).2
  · rintro st ⟨deps, env, info, msg, resp, hi⟩
    obtain ⟨config, hc, -, -, -, -, rfl⟩ := instantiate_ok hi
    refine ⟨booked_initial _ _ _ _, ?_⟩
    unfold checkInstantiate at hc
    simp only [bind_eq_ok] at hc
    obtain ⟨_, -, _, hset, -⟩ := hc
    intro v hv
    obtain ⟨w, hw, rfl⟩ := List.mem_map.1 hv
    exact validateSet_le hset w hw
  · rintro st e st' ⟨hB, hW⟩ hs
    exact ⟨(step_refines hB hs).1, step_weighted hW hB hs⟩

end LstCore
