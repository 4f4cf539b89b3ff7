import LstCore.Proof.World

/-!
# Slot bookkeeping

In every reachable storage a validator's counter is the number of windows in flight that
drew on it, within the ceiling, and no counter ever saturates: not when a plan is issued,
whichever call closes the window, and not when marked windows give their slots back
(`slot_bookkeeping`).
-/

namespace LstCore

open Lib

variable {st st₁ : Storage}

/-- The counters stay in range while a call runs on the storage: when a plan is issued, each
leg finds room for one more entry; when marked windows give their slots back, each mention
finds an entry to take off. -/
structure SlotsFit (st : Storage) : Prop where
  issue : ∀ st₁ w legs before leg after acc v, ClosesFrom st st₁ →
    st₁.windows.lookup st₁.openWindow = some w →
    Validators.planUndelegation st₁.validators w.scrtOwed
      st₁.config.params.maxUnbondEntriesPerValidator = .ok legs →
    legs = before ++ leg :: after →
    before.foldlM (issueLeg st₁.config.bondedDenom) ⟨st₁.validators, w.validatorsUsed, []⟩ = .ok acc →
    acc.set[leg.index]? = some v → v.activeUnbondEntries + 1 ≤ u8Max
  release : ∀ now limit balance spokenFor acc before a after v,
    st.activeWindows.foldlM (matureStep now limit balance) ⟨st.windows, spokenFor, [], [], 0, 0⟩ =
      .ok acc →
    acc.validatorsToRelease = before ++ a :: after →
    v ∈ before.foldl releaseSlot st.validators → v.address = a → 1 ≤ v.activeUnbondEntries

/-- A part of a plan issued leaves every counter at most one above the ceiling. -/
theorem Slotted.issue_fits (h : Slotted st) {amount : Uint128} {used : List String}
    {legs before after : List Validators.UnbondLeg} {leg : Validators.UnbondLeg} {acc : LegAcc}
    {v : ValidatorEntry}
    (hplan : Validators.planUndelegation st.validators amount
      st.config.params.maxUnbondEntriesPerValidator = .ok legs)
    (hl : legs = before ++ leg :: after)
    (hacc : before.foldlM (issueLeg st.config.bondedDenom) ⟨st.validators, used, []⟩ = .ok acc)
    (hv : acc.set[leg.index]? = some v) : v.activeUnbondEntries + 1 ≤ u8Max := by
  have hb := h.bounded
  obtain ⟨hd, -⟩ := Validators.planUndelegation_ok hplan
  have hsub : before.Sublist legs := by rw [hl]; exact List.sublist_append_left _ _
  -- what has been issued of a plan is itself a plan
  have hd' : Validators.Drawable st.validators
      st.config.params.maxUnbondEntriesPerValidator before :=
    ⟨hd.distinct.sublist (hsub.map _), fun l hmem => hd.covered l (hsub.subset hmem)⟩
  obtain ⟨used', -, -, -, -, hs, -⟩ := issueLegs_ok
    (by simp only [chainMaxUnbondEntries, u8Max] at hb ⊢; omega) before _ acc hacc
    (by rw [← addresses_eq]; exact h.distinct) hd'
  have hmem : slot v ∈ slots acc.set := List.mem_map_of_mem (List.mem_of_getElem? hv)
  rw [hs] at hmem
  obtain ⟨s, hs₀, he⟩ := List.mem_map.1 hmem
  have hc := h.ceiling s hs₀
  have hcount : v.activeUnbondEntries = (taken used' s).2 := congrArg Prod.snd he.symm
  simp only [taken] at hcount
  simp only [chainMaxUnbondEntries, u8Max] at hb ⊢
  split at hcount <;> omega

/-- Marked windows mention a validator no more often than it has entries. -/
theorem Slotted.release_fits (h : Slotted st) (hB : Booked st) {now limit : ℕ}
    {balance spokenFor : Uint128} {acc : MatureAcc} {before after : List String} {a : String}
    {v : ValidatorEntry}
    (hacc : st.activeWindows.foldlM (matureStep now limit balance)
      ⟨st.windows, spokenFor, [], [], 0, 0⟩ = .ok acc)
    (hl : acc.validatorsToRelease = before ++ a :: after)
    (hv : v ∈ before.foldl releaseSlot st.validators) (hva : v.address = a) :
    1 ≤ v.activeUnbondEntries := by
  obtain ⟨rets, hloop⟩ := matureLoop_ok hacc hB.shape.nodup fun id hid => hB.shape.lookup_active hid
  have hdue := hloop.due
  have hids : ∀ id ∈ rets.map (·.1), ∃ w, st.windows.lookup id = some w ∧ w.state = .unbonding := by
    intro id hid
    rw [hdue] at hid
    obtain ⟨w, hw, hs, -⟩ := dueIn_iff.1 (List.mem_filter.1 (List.mem_of_mem_take hid)).2
    exact ⟨w, hw, hs⟩
  have hnd : (rets.map (·.1)).Nodup := by
    rw [hdue]
    exact (hB.shape.nodup.sublist List.filter_sublist).sublist (List.take_sublist _ _)
  -- the mention still to come is one more than those given back
  have hmem : slot v ∈ slots (before.foldl releaseSlot st.validators) := List.mem_map_of_mem hv
  rw [slots_release _ _ (by rw [← addresses_eq]; exact h.distinct)] at hmem
  obtain ⟨s, hs₀, he⟩ := List.mem_map.1 hmem
  have hsa : s.1 = a := (congrArg Prod.fst he).trans hva
  have hcount : v.activeUnbondEntries = s.2 - before.count s.1 := congrArg Prod.snd he.symm
  have huses := h.counted s hs₀
  obtain ⟨-, hle⟩ := h.count_mentions (a := s.1) hnd hids
  have hrel := hloop.release
  simp only [List.nil_append] at hrel
  rw [← hrel, hl, List.count_append, hsa, List.count_cons_self, ← hsa] at hle
  omega

/-- **Slot bookkeeping.** In every reachable storage a validator's counter is the number of
windows in flight whose undelegations name it, it is at most the ceiling of the parameters,
which is below the chain's, each such window names a validator at most once, and no update
of a counter saturates. -/
theorem slot_bookkeeping (h : Reachable st) :
    (∀ v ∈ st.validators, v.activeUnbondEntries = st.queue.uses v.address ∧
      v.activeUnbondEntries ≤ st.config.params.maxUnbondEntriesPerValidator) ∧
    st.config.params.maxUnbondEntriesPerValidator < chainMaxUnbondEntries ∧
    (∀ id w, st.windows.lookup id = some w → w.state = .unbonding → w.validatorsUsed.Nodup) ∧
    SlotsFit st := by
  have hB := h.booked
  have hS := h.slotted
  refine ⟨fun v hv => ?_, hS.bounded, fun id w hw hs => (hS.listed id w hw hs).1, ?_, ?_⟩
  · have hmem : slot v ∈ slots st.validators := List.mem_map_of_mem hv
    exact ⟨hS.counted _ hmem, hS.ceiling _ hmem⟩
  · intro st₁ w legs before leg after acc v hc _ hplan hl hacc hv
    exact (hS.closesFrom hc).issue_fits hplan hl hacc hv
  · intro now limit balance spokenFor acc before a after v hacc hl hv hva
    exact hS.release_fits hB hacc hl hv hva

set_option maxRecDepth 10000 in
theorem slot_bookkeeping_closed : ∃ w, devClose.foldlM World.step devWorld = some w ∧
    (w.store.validators.map (·.activeUnbondEntries)) = [0, 1, 0, 0] ∧
    (∀ v ∈ w.store.validators, v.activeUnbondEntries = w.store.queue.uses v.address ∧
      v.activeUnbondEntries ≤ w.store.config.params.maxUnbondEntriesPerValidator) ∧
    w.store.config.params.maxUnbondEntriesPerValidator < chainMaxUnbondEntries ∧
    (∀ id v, w.store.windows.lookup id = some v → v.state = .unbonding → v.validatorsUsed.Nodup) ∧
    SlotsFit w.store := by
  have hrun : (devClose.foldlM World.step devWorld).map
      (fun w => w.store.validators.map (·.activeUnbondEntries)) = some [0, 1, 0, 0] := by
    decide +kernel
  obtain ⟨w, hw, hs⟩ := Option.map_eq_some_iff.1 hrun
  exact ⟨w, hw, hs, slot_bookkeeping (World.replay_reachable devWorld_fresh hw)⟩

end LstCore
