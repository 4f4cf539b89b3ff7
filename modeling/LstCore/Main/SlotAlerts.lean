import LstCore.Main.DueTasks
import LstCore.Main.Headroom
import LstCore.Spec.Checks

/-!
# Alerts about slots

The parameters leave every validator a slot more than the windows short of maturity can take. So a
validator that the keeper finds full has a window that has matured and that nobody has collected: the
keeper sends the collect in the same pass, and once it covers what is due no alert is left
(`slot_alert_collects`).
-/

namespace LstCore

open Lib

variable {b : Blocks} {es : List BlockEvent} {v : ValidatorEntry} {f : Keeper.Finding}

/-- A window that has matured, undelegated from a validator, and is not marked yet. -/
def DueAt (b : Blocks) (a : String) (w : UnbondWindow) : Prop :=
  b.store.windows.lookup w.id = some w ∧ w.state = .unbonding ∧ a ∈ w.validatorsUsed ∧
    w.maturesAt ≤ b.now

/-- **A validator none of whose windows is due has a free slot.** -/
theorem Blocks.Paced.room (h : b.Paced) (hv : v ∈ b.store.validators)
    (hnone : ∀ w, ¬ DueAt b v.address w) :
    v.activeUnbondEntries < b.store.config.params.maxUnbondEntriesPerValidator := by
  have hT := h.reachable.terms
  have hB := h.reachable.booked
  have hcount : v.activeUnbondEntries = b.store.queue.uses v.address :=
    h.reachable.slotted.counted (slot v) (List.mem_map_of_mem hv)
  -- each of its windows is one of those short of maturity
  have huses : b.store.queue.uses v.address ≤ (b.store.queue.unripe b.now).length := by
    rw [← Queue.total_unripe hB.shape]
    refine Keymap.total_mono fun id w hw => ?_
    unfold Queue.holds
    split
    · rename_i hu
      have hid : w.id = id := hB.shape.keyed id w hw
      have hlate : b.now < w.maturesAt :=
        not_le.1 fun hle => hnone w ⟨hid.symm ▸ hw, hu.1, hu.2, hle⟩
      rw [if_pos ⟨hu.1, hlate⟩]
    · exact Nat.zero_le _
  have hlen : (b.store.queue.unripe b.now).length ≤ closingsPerPeriod b.store.config.params :=
    h.timed.unripe_length_le hB.shape h.short hT.window_pos
  have hfits := hT.fits
  omega

/-- An alert is about a validator that is full. -/
theorem Keeper.alert_ok {vs : List ValidatorEntry} (hf : f ∈ Keeper.checkEntrySlots vs Keeper.entryCeiling)
    (ha : f.severity = .alert) : ∃ v ∈ vs, Keeper.entryCeiling ≤ v.activeUnbondEntries ∧
      f.detail = s!"{v.address} holds {v.activeUnbondEntries} of {Keeper.entryCeiling} entry slots" := by
  obtain ⟨v, hv, rfl⟩ := List.mem_map.1 hf
  refine ⟨v, (List.mem_filter.1 hv).1, ?_, rfl⟩
  by_contra hlt
  have hwarn : (if Keeper.entryCeiling ≤ v.activeUnbondEntries then Keeper.Severity.alert
    else .warn) = .alert := ha
  rw [if_neg hlt] at hwarn
  cases hwarn

/-- **A validator that is found full has a window to collect.** -/
theorem Blocks.Paced.full (h : b.Paced) (hv : v ∈ b.store.validators)
    (hfull : Keeper.entryCeiling ≤ v.activeUnbondEntries) : ∃ w, DueAt b v.address w := by
  by_contra hnone
  have hroom := h.room hv (not_exists.1 hnone)
  have hbelow := h.reachable.terms.below
  unfold chainMaxUnbondEntries at hbelow
  unfold Keeper.entryCeiling at hfull
  omega

/-- How many windows are due. -/
def dueCount (b : Blocks) : ℕ :=
  (b.store.activeWindows.filter fun id => dueIn b.store.windows b.now id).length

/-- A collect that covers what is due leaves nothing due. -/
theorem collected {deps : Deps} {env : Env} {limit : Option ℕ} {st' : Storage} {resp : Response}
    (hB : Booked b.store) (hnow : env.time = b.now)
    (hcover : dueCount b ≤ max (limit.getD defaultSyncLimit) 1)
    (h : executeCollectMatured deps env limit b.store = .ok (st', resp)) (a : String) (w : UnbondWindow) :
    ¬ DueAt { b with store := st' } a w := by
  obtain ⟨ids, hmat, -⟩ := executeCollectMatured_ok h
  obtain ⟨balance, rets, -, hM, -⟩ := matureDueWindows_ok hB hmat
  rintro ⟨hw, hs, -, hle⟩
  have hall : rets.map (·.1) =
      b.store.activeWindows.filter fun id => dueIn b.store.windows b.now id := by
    rw [hM.due, hnow]
    exact List.take_of_length_le hcover
  by_cases hid : w.id ∈ rets.map (·.1)
  · obtain ⟨ret, hret, hre⟩ := List.mem_map.1 hid
    obtain ⟨x, -, -, -, -, hx⟩ := hM.lookup_of_mem hB hret
    rw [hre] at hx
    obtain rfl : x.returned ret.2 = w := Option.some.inj (hx.symm.trans hw)
    cases hs
  · refine hid ?_
    have hold : b.store.windows.lookup w.id = some w := (hM.lookup_of_not_mem hid).symm.trans hw
    rw [hall]
    exact List.mem_filter.2
      ⟨(hB.shape.active w.id).2 ⟨w, hold, .inl hs⟩, dueIn_iff.2 ⟨w, hold, hs, hle⟩⟩

/-- **A slot alert and its cure.** Whenever the keeper finds a validator full, a window that undelegated
from it has matured and is uncollected; the keeper's collect task sends a collect at any time from then
on; and after any collect of that block that covers what is due no validator is full. -/
theorem slot_alert_collects (h : Blocks.Along es b)
    (hf : f ∈ Keeper.checkEntrySlots b.store.validators Keeper.entryCeiling)
    (ha : f.severity = .alert) :
    (∃ v ∈ b.store.validators, f.detail =
        s!"{v.address} holds {v.activeUnbondEntries} of {Keeper.entryCeiling} entry slots" ∧
      ∃ w, DueAt b v.address w) ∧
    (∀ now pageLimit, b.now ≤ now →
      (Keeper.collectMatured (Keeper.windows · b.store) now pageLimit).sends =
        some (.collectMatured (some pageLimit))) ∧
    ∀ deps env info limit st' resp, env.time = b.now →
      dueCount b ≤ max (limit.getD defaultSyncLimit) 1 →
      execute deps env info (.collectMatured limit) b.store = .ok (st', resp) →
      ∀ f' ∈ Keeper.checkEntrySlots st'.validators Keeper.entryCeiling, f'.severity ≠ .alert := by
  have hP := h.paced
  obtain ⟨v, hv, hfull, hdetail⟩ := Keeper.alert_ok hf ha
  obtain ⟨w, hw⟩ := hP.full hv hfull
  refine ⟨⟨v, hv, hdetail, w, hw⟩, fun now pageLimit hnow => ?_, ?_⟩
  · obtain ⟨hlook, hs, -, hle⟩ := hw
    obtain ⟨x, hold, -, hmat⟩ := hP.oldest_le hlook hs
    exact (keeper_collects hP).2 ⟨x, hold, by omega⟩
  · intro deps env info limit st' resp hnow hcover he f' hf' ha'
    -- the block goes on, with nothing due
    have hstep : b.step (.call (.execute deps env info (.collectMatured limit))) = some { b with
        store := st'
        entries := b.entries ++ newEntries b.now (undelegatedFrom resp.messages) } := by
      have hrun : (Call.execute deps env info (.collectMatured limit)).run b.store = .ok (st', resp) := he
      unfold Blocks.step
      dsimp only
      rw [if_pos (by simpa [Call.time] using hnow), hrun]
    have hP' := hP.call hstep
    obtain ⟨x, hx, hxfull, -⟩ := Keeper.alert_ok hf' ha'
    obtain ⟨y, hy⟩ := hP'.full hx hxfull
    exact collected hP.reachable.booked hnow hcover he x.address y hy

/-- Six windows of 5 SCRT close five days apart, and nobody collects. -/
def devCrowded : List BlockEvent :=
  devClosing.take 2 ++ (List.range 6).flatMap fun i =>
    let now := devStart + (i + 1) * (5 * 86400)
    [devCall (devStart + i * (5 * 86400)) devBonded "token" 0 (devUnbond "user" (Uint128.new 5000000)),
      .next now, devCall now devBonded "keeper" 0 .advanceWindow]

set_option maxRecDepth 10000 in
/-- The sixth fills the validator, since the first has matured four days before. -/
theorem slot_alert_collects_crowded : ∃ es b, Blocks.Along es b ∧
    ∃ f ∈ Keeper.checkEntrySlots b.store.validators Keeper.entryCeiling, f.severity = .alert ∧
      (∃ v ∈ b.store.validators, ∃ w, DueAt b v.address w) ∧
      (Keeper.collectMatured (Keeper.windows · b.store) b.now 25).sends =
        some (.collectMatured (some 25)) := by
  have hrun : (devCrowded.foldlM Blocks.step devBlocks).map (fun b =>
      (Keeper.checkEntrySlots b.store.validators Keeper.entryCeiling).map (·.severity)) =
      some [.alert] := by decide +kernel
  obtain ⟨b, hb, hs⟩ := Option.map_eq_some_iff.1 hrun
  obtain ⟨f, hf, hseverity⟩ := List.map_eq_singleton_iff.1 hs
  have hmem : f ∈ Keeper.checkEntrySlots b.store.validators Keeper.entryCeiling := by
    rw [hf]
    exact List.mem_singleton_self f
  have hA := Blocks.along_replay devBlocks_fresh hb
  obtain ⟨⟨v, hv, -, w, hw⟩, hsend, -⟩ := slot_alert_collects hA hmem hseverity
  exact ⟨_, b, hA, f, hmem, hseverity, ⟨v, hv, w, hw⟩, hsend b.now 25 (Nat.le_refl _)⟩

end LstCore
