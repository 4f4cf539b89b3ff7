import LstCore.Proof.Prompt

/-!
# What a window records when it matures

`windows::mature` records the smaller of what a window owes and what is left of the balance.

* `matured_whole_iff`: with returns credited in full as the block ends in which they are
  complete, the windows that came back got all they owe along exactly the runs in which every
  transaction covers what it marks.
* `slashed_window_bears_loss_iff`: with returns credited, perhaps slashed, before they are
  marked, the windows record what was credited for them along exactly the runs in which every
  transaction keeps the windows it marks apart.
-/

namespace LstCore

open Lib World

variable {w₀ w : World} {h : List Event}

/-- **No window is booked before its money is there, when markings are covered.** Along a run
of blocks every window that came back with something in it got all it owes, if and only if
every transaction covers what it marks; it does when the windows it marks have been credited.
Then every claim is worth what it is owed. -/
theorem matured_whole_iff (hf : w₀.Fresh) :
    (Run (Guarded (Next blockStep) (OnTx Covers)) w₀ h w ↔
      Run (fun w e w' => Next blockStep w e w' ∧ w'.Whole) w₀ h w) ∧
    (Run (Guarded (Next blockStep) (OnTx Credited)) w₀ h w →
      Run (Guarded (Next blockStep) (OnTx Covers)) w₀ h w) ∧
    (Run (Guarded (Next blockStep) (OnTx Covers)) w₀ h w →
      ∀ id v owed, w.store.windows.lookup id = some v → v.state = .matured →
        Windows.payoutForClaim v owed = .ok owed) := by
  have hfiled : ∀ w e w', Filed w → Next blockStep w e w' → Filed w' := by
    intro w e w' hF hs
    by_cases hne : ∀ t, e ≠ .tx t
    · exact blockStep_inv hF (fun _ _ _ hF hs _ => hF.step hs) hs hne
    · push Not at hne
      obtain ⟨t, rfl⟩ := hne
      exact hF.tx (blockStep_tx hs)
  have hiff : Run (Guarded (Next blockStep) (OnTx Covers)) w₀ h w ↔
      Run (fun w e w' => Next blockStep w e w' ∧ w'.Whole) w₀ h w := by
    -- the condition decides each transaction, and no other event touches a record
    refine Run.guarded_iff (I := fun w => Filed w ∧ w.Whole) ⟨hf.filed, hf.whole⟩
      (fun w e w' hI hs hW => ⟨hfiled w e w' hI.1 hs, hW⟩) ?_
    rintro w e w' ⟨hF, hW⟩ hs
    cases e with
    | tx t =>
      obtain ⟨b, rets, messages, hT⟩ := hF.solvent.turn (blockStep_tx hs)
      exact (hT.whole_iff hF.solvent hW).symm
    | _ =>
      refine iff_of_true trivial ?_
      exact blockStep_inv hW (fun _ _ _ hW hs hne => hW.other hs hne) hs (by simp)
  refine ⟨hiff, fun hr => ?_, fun hr id v owed hv hs => ?_⟩
  · -- credited in full, the windows marked are covered by what has arrived
    refine (Run.guarded_mono (I := fun w => Filed w ∧ Full w ∧ Funded w)
      ⟨hf.filed, hf.full, hf.funded⟩ ?_ hr).1
    rintro w e w' ⟨hF, hfull, hfund⟩ hs hg
    cases e with
    | tx t =>
      have ht := blockStep_tx hs
      obtain ⟨b, rets, messages, hT⟩ := hF.solvent.turn ht
      exact ⟨hfull.covers hF hfund hg, hF.tx ht, hfull.turn hT,
        hfund.turn hF.solvent.booked hT (hfull.sum_whole hF hT hg)⟩
    | _ =>
      exact ⟨trivial, hfiled _ _ _ hF hs, hfull.blockStep hs (by simp),
        blockStep_inv hfund (fun _ _ _ hfund hs hne => hfund.other hs hne) hs (by simp)⟩
  · have hF : Filed w ∧ w.Whole := (hiff.1 hr).inv (P := fun w => Filed w ∧ w.Whole)
      ⟨hf.filed, hf.whole⟩ fun w e w' hI hs => ⟨hfiled w e w' hI.1 hs.1, hs.2⟩
    have hz := (hF.1.solvent.booked.shape.ok id v hv).owed_ne_zero (.inr hs)
    have hre := hF.2 id v hv (.inl hs) hz
    unfold Windows.payoutForClaim
    rw [hre, Option.getD_some, if_pos rfl]

/-- The window is collected in the block it matures in, and what it undelegated comes back as
that block ends. -/
def devEarly : List Event :=
  devClose ++ [.time (devStart + 26 * 86400), devCollect, .time (devStart + 26 * 86400 + 6)]

set_option maxRecDepth 10000 in
/-- The 40 SCRT have arrived, and the window has been booked with nothing. -/
theorem matured_empty : ∃ w v, Reaches blockStep w ∧
    w.balance = Uint128.new 40000000 ∧ w.store.windows.lookup 0 = some v ∧ v.state = .matured ∧
    v.scrtOwed = Uint128.new 40000000 ∧ v.scrtRealised = some 0 := by
  have hrun : (devEarly.foldlM blockStep devWorld).map (fun w => (w.balance,
      (w.store.windows.lookup 0).map fun v => (v.state, v.scrtOwed, v.scrtRealised))) =
      some (Uint128.new 40000000, some (.matured, Uint128.new 40000000, some 0)) := by decide +kernel
  obtain ⟨w, hw, hwv⟩ := Option.map_eq_some_iff.1 hrun
  rw [Prod.mk.injEq] at hwv
  obtain ⟨v, hv, hvs⟩ := Option.map_eq_some_iff.1 hwv.2
  simp only [Prod.mk.injEq] at hvs
  exact ⟨w, v, ⟨_, along_replay devWorld_fresh hw⟩, hwv.1, hv, hvs⟩

/-- The window is collected a block later. -/
def devLate : List Event :=
  devClose ++ [.time (devStart + 26 * 86400), .time (devStart + 26 * 86400 + 6), devCollect]

set_option maxRecDepth 10000 in
theorem matured_whole_iff_late : ∃ w v,
    Run (fun w e w' => Next blockStep w e w' ∧ w'.Whole) devWorld devLate.reverse w ∧
      w.store.windows.lookup 0 = some v ∧ v.scrtRealised = some (Uint128.new 40000000) := by
  have hrun : (devLate.foldlM (checked blockStep (OnTx Covers)) devWorld).map
        (fun w => (w.store.windows.lookup 0).map (·.scrtRealised)) =
      some (some (some (Uint128.new 40000000))) := by decide +kernel
  obtain ⟨w, hw, hwv⟩ := Option.map_eq_some_iff.1 hrun
  obtain ⟨v, hv, hvr⟩ := Option.map_eq_some_iff.1 hwv
  exact ⟨w, v, (matured_whole_iff devWorld_fresh).1.1 (Run.of_checked hw), hv, hvr⟩

/-- **A slashed window bears its own loss, when markings keep the windows apart.** Along a run
in which windows are credited before they are marked, every window that came back with
something in it records what was credited for it, if and only if in every transaction each
window marked came back in full or with exactly what is left of the balance at its turn. -/
theorem slashed_window_bears_loss_iff (hf : w₀.Fresh) :
    Run (Guarded (Guarded (Next World.step) (OnTx Credited)) (OnTx Separates)) w₀ h w ↔
      Run (fun w e w' => Guarded (Next World.step) (OnTx Credited) w e w' ∧ w'.Faithful) w₀ h w := by
  refine Run.guarded_iff (I := fun w => Filed w ∧ Funded w ∧ w.Faithful)
    ⟨hf.filed, hf.funded, hf.faithful⟩ ?_ ?_
  · rintro w e w' ⟨hF, hfund, -⟩ ⟨hs, -⟩ hW
    refine ⟨hF.step hs, ?_, hW⟩
    by_cases hne : ∀ t, e ≠ .tx t
    · exact hfund.other hs hne
    · push Not at hne
      obtain ⟨t, rfl⟩ := hne
      obtain ⟨b, rets, messages, hT⟩ := hF.solvent.turn hs
      exact hfund.turn hF.solvent.booked hT (hT.sum_faithful hF.solvent.booked hW)
  · rintro w e w' ⟨hF, hfund, hfaith⟩ ⟨hs, hc⟩
    cases e with
    | tx t =>
      obtain ⟨b, rets, messages, hT⟩ := hF.solvent.turn hs
      exact (hT.faithful_iff hF hfund hfaith hc).symm
    | _ => exact iff_of_true trivial (hfaith.other hF.solvent.booked hs (by simp))

/-- Both windows come back, the first slashed by a quarter, and are collected together. -/
def devMixed : List Event :=
  devTwoClosed ++ [.time (devStart + 31 * 86400), .credit 0 (Uint128.new 30000000),
    .credit 1 (Uint128.new 10000000), devCollect]

set_option maxRecDepth 10000 in
/-- The slashed window has taken what came back for the other one. -/
theorem slashed_window_covered : ∃ w v v', devWorld.Fresh ∧
    Run (Guarded (Next World.step) (OnTx Credited)) devWorld devMixed.reverse w ∧
    w.store.windows.lookup 0 = some v ∧ v.state = .matured ∧
    w.credited 0 = some (Uint128.new 30000000) ∧ v.scrtRealised = some (Uint128.new 40000000) ∧
    w.store.windows.lookup 1 = some v' ∧ v'.state = .matured ∧
    w.credited 1 = some (Uint128.new 10000000) ∧ v'.scrtRealised = some 0 := by
  have hrun : (devMixed.foldlM (checked World.step (OnTx Credited)) devWorld).map
        (fun w => ([0, 1].map fun id =>
          ((w.store.windows.lookup id).map fun v => (v.state, v.scrtRealised), w.credited id))) =
      some [(some (.matured, some (Uint128.new 40000000)), some (Uint128.new 30000000)),
        (some (.matured, some 0), some (Uint128.new 10000000))] := by decide +kernel
  obtain ⟨w, hw, hwv⟩ := Option.map_eq_some_iff.1 hrun
  simp only [List.map_cons, List.map_nil, List.cons.injEq, Prod.mk.injEq, and_true,
    Option.map_eq_some_iff] at hwv
  obtain ⟨⟨⟨v, hv, hvs, hvr⟩, hc⟩, ⟨v', hv', hvs', hvr'⟩, hc'⟩ := hwv
  exact ⟨w, v, v', devWorld_fresh, Run.of_checked hw, hv, hvs, hc, hvr, hv', hvs', hc', hvr'⟩

/-- The slashed window is collected while nothing else has come back. -/
def devApart : List Event :=
  devTwoClosed ++ [.time (devStart + 26 * 86400), .credit 0 (Uint128.new 30000000), devCollect]

set_option maxRecDepth 10000 in
theorem slashed_window_bears_loss_iff_apart : ∃ w v,
    Run (fun w e w' => Guarded (Next World.step) (OnTx Credited) w e w' ∧ w'.Faithful) devWorld
      devApart.reverse w ∧
    w.store.windows.lookup 0 = some v ∧ v.scrtRealised = some (Uint128.new 30000000) := by
  have hrun : (devApart.foldlM (checked (checked World.step (OnTx Credited)) (OnTx Separates))
      devWorld).map (fun w => (w.store.windows.lookup 0).map (·.scrtRealised)) =
      some (some (some (Uint128.new 30000000))) := by decide +kernel
  obtain ⟨w, hw, hwv⟩ := Option.map_eq_some_iff.1 hrun
  obtain ⟨v, hv, hvr⟩ := Option.map_eq_some_iff.1 hwv
  refine ⟨w, v, (slashed_window_bears_loss_iff devWorld_fresh).1 ((Run.of_checked hw).mono ?_), hv, hvr⟩
  rintro w e w' ⟨hs, hsep⟩
  exact ⟨(checked_eq_some.1 hs).symm, hsep⟩

end LstCore
