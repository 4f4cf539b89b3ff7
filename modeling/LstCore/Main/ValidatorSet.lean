import LstCore.Proof.Posts
import LstCore.Proof.World

/-!
# The validator set

`validators.rs` checks an assignment when it is made and relies on it from then on: nobody is in
the set twice, the active weights are the whole, and entries stay where they are
(`validator_set_sound`).
-/

namespace LstCore

open Lib

variable {st st' : Storage} {set : List ValidatorEntry} {incoming : Uint128}

/-! ## Placement -/

/-- Adding up an amount fails by aborting. -/
theorem sumOf_error {f : ValidatorEntry → Uint128} {e : Failure} (h : sumOf f set = .error e) :
    e = .panic := by
  obtain ⟨acc, v, -, h⟩ := foldlM_error h
  unfold add orPanic at h
  split at h
  · cases h
  · exact (Except.error.inj h).symm

theorem target_error {pool : Uint128} {v : ValidatorEntry} {e : Failure}
    (h : Validators.target pool v = .error e) : e = .panic := by
  unfold Validators.target multiplyRatio orPanic at h
  split at h
  · exact (Except.error.inj h).symm
  · split at h
    · cases h
    · exact (Except.error.inj h).symm

/-- **Placement finds nobody** only where nobody is active. -/
theorem selectForDelegation_empty
    (h : Validators.selectForDelegation set incoming = .error (.err .emptyValidatorSet)) :
    ∀ v ∈ set, v.status ≠ .active := by
  unfold Validators.selectForDelegation at h
  simp only [bind_eq_error] at h
  rcases h with h | ⟨bonded, -, h | ⟨after, -, h | ⟨best, hbest, h⟩⟩⟩
  · cases sumOf_error h
  · unfold orErr at h
    split at h <;> cases h
  · -- a turn of the search fails only in computing a target
    obtain ⟨best, ⟨v, idx⟩, -, h⟩ := foldlM_error h
    dsimp only at h
    split at h
    · rw [bind_eq_error] at h
      rcases h with h | ⟨t, -, h⟩
      · cases target_error h
      · split at h
        · split at h <;> cases h
        · cases h
    · cases h
  · split at h
    · cases h
    · -- the search ends with nobody: whoever is not still to come is not active
      have hinv := foldlM_inv (fun rest best => best = none →
        ∀ p ∈ set.zipIdx, p ∉ rest → p.1.status ≠ .active) ?_ _ _ _ (fun _ p hp hn => absurd hp hn) hbest
      · intro v hv
        obtain ⟨i, hi⟩ := List.getElem?_of_mem hv
        exact hinv rfl (v, i) (List.mem_zipIdx_iff_getElem?.2 hi) (List.not_mem_nil)
      · rintro ⟨v, idx⟩ rest best best' hI hstep hnone p hp hrest
        subst hnone
        dsimp only at hstep
        split at hstep
        · simp only [bind_eq_ok] at hstep
          obtain ⟨t, -, hstep⟩ := hstep
          split at hstep
          · split at hstep <;> simp at hstep
          · simp at hstep
        · rename_i hidle
          rw [pure_eq_ok] at hstep
          by_cases hpv : p = (v, idx)
          · subst hpv
            simpa [ValidatorStatus.acceptsStake] using hidle
          · exact hI hstep p hp fun hmem => (List.mem_cons.1 hmem).elim hpv hrest

/-! ## The set -/

/-- What an entry holds under its address. -/
def holding (v : ValidatorEntry) : String × Uint128 × Uint128 × ℕ :=
  (v.address, v.bonded, v.pendingRewards, v.activeUnbondEntries)

/-- An assignment leaves what the entries hold, and appends validators that hold nothing. -/
theorem holding_applyWeights {ws : List ValidatorInit} (hnd : (ws.map (·.address)).Nodup) :
    (Validators.applyWeights set ws).map holding =
      set.map holding ++ (joining set ws).map fun w => (w.address, 0, 0, 0) := by
  rw [applyWeights_eq set hnd, List.map_append, List.map_map, List.map_map]
  congr 1
  refine List.map_congr_left fun v _ => ?_
  obtain ⟨hslot, hbonded, hpending⟩ := reweigh_slot ws v
  simp only [slot, Prod.mk.injEq] at hslot
  simp only [holding, Function.comp_apply, hslot.1, hslot.2, hbonded, hpending]

/-- **The validator set.** In every reachable storage:
- nobody is in the set twice, everybody is on the allowlist, and they are at most
  `maxValidators`;
- the active weights are the whole, none is above the limit of the instantiation or the code's,
  whoever is not active has none, and somebody is active, so that placement always finds
  somebody, by these posts and whatever is staked;
- an assignment that is accepted leaves every entry in its place with its stake, its rewards and
  its unbonding entries, and appends others;
- the cursor is in the set, and no page ends before it. -/
theorem validator_set_sound (h : Reachable st) :
    ((st.validators.map (·.address)).Nodup ∧ (∀ v ∈ st.validators, v.address ∈ st.allowlist) ∧
      st.validators.length ≤ maxValidators) ∧
    (Posted st.config.limits.maxValidatorWeightBps st.validators ∧
      st.config.limits.maxValidatorWeightBps ≤ maxValidatorWeightBps ∧
      ∀ set, posts set = posts st.validators → ∀ incoming,
        Validators.selectForDelegation set incoming ≠ .error (.err .emptyValidatorSet)) ∧
    (∀ deps env info weights st' resp,
      execute deps env info (.manager (.setWeights weights)) st = .ok (st', resp) →
      st'.syncCursor = st.syncCursor ∧ st'.validators.map holding = st.validators.map holding ++
        (joining st.validators weights).map fun w => (w.address, 0, 0, 0)) ∧
    (st.syncCursor < st.validators.length ∧
      ∀ limit stop, pageEnd st.syncCursor limit st.validators = .ok stop →
        subUsize stop st.syncCursor = .ok (stop - st.syncCursor)) := by
  have hS := h.slotted
  have hM := h.manned
  have hnd := hS.distinct
  have hal := hS.allowed
  rw [addresses_eq] at hnd
  simp only [addresses_eq, List.forall_mem_map] at hal
  refine ⟨⟨hnd, hal, ?_⟩, ⟨hM.posted, hM.limit, ?_⟩, ?_, hM.cursor, ?_⟩
  · rw [← List.length_map (f := (·.address))]
    exact (hnd.subperm (List.forall_mem_map.2 hal)).length_le.trans hS.few
  · intro set hset incoming hempty
    obtain ⟨v, hv, hactive⟩ := (hM.posted.of_posts hset).active
    exact selectForDelegation_empty hempty v hv hactive
  · intro deps env info weights st' resp hs
    have hs : executeManager info (.setWeights weights) st = .ok (st', resp) := hs
    rcases executeManager_ok hs with ⟨ws, hm, hv, rfl, -⟩ | ⟨_, hm, -⟩ | ⟨_, _, hm, -⟩
    · cases hm
      exact ⟨rfl, holding_applyWeights (validateSet_nodup (validateManagedWeights_mem hv).1).2⟩
    · cases hm
    · cases hm
  · intro limit stop hstop
    have heq := pageEnd_eq hstop
    have hlt := hM.cursor
    rw [subUsize_eq_ok]
    exact ⟨by omega, rfl⟩

set_option maxRecDepth 10000 in
/-- After a bootstrap and a deposit. -/
theorem validator_set_sound_run : ∃ st, Reachable st ∧ st.validators.length = 4 ∧
    Posted st.config.limits.maxValidatorWeightBps st.validators := by
  have hrun : ([devBootstrap, devDeposit].foldlM World.step devWorld).map
      (·.store.validators.length) = some 4 := by decide +kernel
  obtain ⟨w, hw, hlen⟩ := Option.map_eq_some_iff.1 hrun
  have hr := World.replay_reachable devWorld_fresh hw
  exact ⟨w.store, hr, hlen, (validator_set_sound hr).2.1.1⟩

end LstCore
