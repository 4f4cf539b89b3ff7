import LstCore.Proof.World

/-!
# What a plan can concentrate

A redelegation plan moves stake between validators on the allowlist, and nothing else about
it is checked: a validator ends with its stake, plus what the plan sends it, less what the
plan takes from it (`rebalance_net`). So the manager's ceiling is met exactly by the plans
that meet it on their own (`manager_keeps_ceiling`).
-/

namespace LstCore

open Lib

variable {set set' : List ValidatorEntry} {acc acc' : RebalanceAcc} {i j : ℕ}
  {v : ValidatorEntry} {st st' : Storage} {a : String}

/-- What a step takes from a validator. -/
def RedelegateStep.takes (step : RedelegateStep) (a : String) : ℕ :=
  if step.srcValidator = a then step.amount.val else 0

/-- What a step sends to a validator. -/
def RedelegateStep.sends (step : RedelegateStep) (a : String) : ℕ :=
  if step.dstValidator = a then step.amount.val else 0

/-- What a plan takes from a validator. -/
def losses (plan : List RedelegateStep) (a : String) : ℕ := (plan.map (·.takes a)).sum

/-- What a plan sends to a validator. -/
def gains (plan : List RedelegateStep) (a : String) : ℕ := (plan.map (·.sends a)).sum

theorem positionOf_ok (h : positionOf set a = .ok i) : ∃ v, set[i]? = some v ∧ v.address = a := by
  rw [positionOf, orErr_eq_ok, List.findIdx?_eq_some_iff_getElem] at h
  obtain ⟨hlt, hp, -⟩ := h
  exact ⟨set[i], List.getElem?_eq_getElem hlt, by simpa using hp⟩

/-- In a set that lists each validator once, two places with one address are one place. -/
theorem index_unique {u : ValidatorEntry} (hnd : (addresses set).Nodup) (hi : set[i]? = some v)
    (hj : set[j]? = some u) (ha : v.address = u.address) : i = j := by
  rw [addresses_eq] at hnd
  obtain ⟨hlt, -⟩ := List.getElem?_eq_some_iff.1 hi
  exact (List.getElem?_inj (by simpa using hlt) hnd).1 (by simp [hi, hj, ha])

theorem entry_unique {u : ValidatorEntry} (hnd : (addresses set).Nodup) (hv : v ∈ set) (hu : u ∈ set)
    (ha : v.address = u.address) : v = u := by
  obtain ⟨i, hi⟩ := List.getElem?_of_mem hv
  obtain ⟨j, hj⟩ := List.getElem?_of_mem hu
  rw [index_unique hnd hi hj ha, hj, Option.some.injEq] at hi
  exact hi.symm

/-- Changing the stake of the entry with one address. -/
theorem getElem?_restaked {u : ValidatorEntry} {b : Uint128} (hnd : (addresses set).Nodup)
    (hu : set[i]? = some u) (hv : set[j]? = some v) :
    ∃ v', (set.set i { u with bonded := b })[j]? = some v' ∧ v'.address = v.address ∧
      v'.bonded = if u.address = v.address then b else v.bonded := by
  by_cases hij : i = j
  · subst hij
    rw [hu, Option.some.injEq] at hv
    subst hv
    obtain ⟨hlt, -⟩ := List.getElem?_eq_some_iff.1 hu
    exact ⟨_, List.getElem?_set_self hlt, rfl, (if_pos rfl).symm⟩
  · refine ⟨v, by rw [List.getElem?_set_ne hij, hv], rfl, (if_neg fun ha => hij ?_).symm⟩
    exact index_unique hnd hu hv ha

/-- **One step** takes its amount from one validator and sends it to another. -/
theorem rebalanceStep_net {allowlist : List String} {denom : String} {step : RedelegateStep}
    (hnd : (addresses acc.set).Nodup) (h : rebalanceStep allowlist denom acc step = .ok acc')
    (hv : acc.set[j]? = some v) : ∃ v', acc'.set[j]? = some v' ∧ v'.address = v.address ∧
      v'.bonded.val + step.takes v.address = v.bonded.val + step.sends v.address := by
  obtain ⟨hsrc, hs, hb, hdst, hd, hb'⟩ := rebalanceStep_redelegated h
  rename_i src dst s d b b'
  obtain ⟨s', hs', hsa⟩ := positionOf_ok hsrc
  rw [hs, Option.some.injEq] at hs'
  subst hs'
  obtain ⟨d', hd', hda⟩ := positionOf_ok hdst
  rw [hd, Option.some.injEq] at hd'
  subst hd'
  have hnd' : (addresses (acc.set.set src { s with bonded := b })).Nodup := by
    rwa [addresses, slots_set hs (show slot { s with bonded := b } = slot s from rfl)]
  -- off the source, then onto the destination, which may be the source again
  obtain ⟨u, hu, hua, hub⟩ := getElem?_restaked (b := b) hnd hs hv
  obtain ⟨v', hv', hva, hvb⟩ := getElem?_restaked (b := b') hnd' hd hu
  refine ⟨v', hv', hva.trans hua, ?_⟩
  -- where the step names this validator, the stake it reads is this one
  have hdu : step.dstValidator = v.address → d.bonded = u.bonded := fun ha => by
    have hj := index_unique hnd' hd hu (hda.trans (ha.trans hua.symm))
    rw [hj, hu, Option.some.injEq] at hd
    rw [hd]
  have hsv : step.srcValidator = v.address → s.bonded = v.bonded := fun ha => by
    have hj := index_unique hnd hs hv (hsa.trans ha)
    rw [hj, hv, Option.some.injEq] at hs
    rw [hs]
  rw [hvb, hua, hda]
  unfold RedelegateStep.takes RedelegateStep.sends
  rw [hsa] at hub
  by_cases hds : step.dstValidator = v.address
  · rw [if_pos hds, if_pos hds, hb', hdu hds, hub]
    by_cases hss : step.srcValidator = v.address
    · rw [if_pos hss, if_pos hss, ← hsv hss, hb]
    · rw [if_neg hss, if_neg hss]; omega
  · rw [if_neg hds, if_neg hds, hub]
    by_cases hss : step.srcValidator = v.address
    · rw [if_pos hss, if_pos hss, ← hsv hss, hb]; omega
    · rw [if_neg hss, if_neg hss]

/-- **A plan**, validator by validator. -/
theorem rebalance_net {allowlist : List String} {denom : String} :
    ∀ {plan : List RedelegateStep} {acc : RebalanceAcc} {v : ValidatorEntry},
      plan.foldlM (rebalanceStep allowlist denom) acc = .ok acc' →
      (addresses acc.set).Nodup → acc.set[j]? = some v →
      ∃ v', acc'.set[j]? = some v' ∧ v'.address = v.address ∧
        v'.bonded.val + losses plan v.address = v.bonded.val + gains plan v.address := by
  intro plan
  induction plan with
  | nil =>
    intro acc v h _ hv
    simp only [List.foldlM_nil, pure_eq_ok] at h
    subst h
    exact ⟨v, hv, rfl, rfl⟩
  | cons step plan ih =>
    intro acc v h hnd hv
    rw [List.foldlM_cons, bind_eq_ok] at h
    obtain ⟨mid, hmid, h⟩ := h
    obtain ⟨u, hu, hua, hub⟩ := rebalanceStep_net hnd hmid hv
    have hnd' : (addresses mid.set).Nodup := by rwa [addresses, (rebalanceStep_ok hmid).1]
    obtain ⟨v', hv', hva, hvb⟩ := ih h hnd' hu
    refine ⟨v', hv', hva.trans hua, ?_⟩
    rw [hua] at hvb
    simp only [losses, gains, List.map_cons, List.sum_cons] at hvb ⊢
    omega

/-! ## The manager's ceiling -/

/-- The most stake that the manager may assign to one validator, rounded up. -/
def weightCeiling (st : Storage) : ℕ :=
  (total (·.bonded) st.validators * st.config.limits.maxValidatorWeightBps + (bpsDenom - 1)) / bpsDenom

/-- Whoever ends with more stake than before ends within the ceiling. -/
def WithinCeiling (st st' : Storage) : Prop :=
  ∀ v ∈ st.validators, ∀ v' ∈ st'.validators, v'.address = v.address → v.bonded < v'.bonded →
    v'.bonded.val ≤ weightCeiling st'

/-- A plan that sends nobody past the ceiling, from the stake before it. -/
def PlanWithinCeiling (plan : List RedelegateStep) (st : Storage) : Prop :=
  ∀ v ∈ st.validators, losses plan v.address < gains plan v.address →
    v.bonded.val + gains plan v.address ≤ weightCeiling st + losses plan v.address

instance (plan : List RedelegateStep) (st : Storage) : Decidable (PlanWithinCeiling plan st) :=
  inferInstanceAs (Decidable (∀ _ ∈ _, _ → _))

variable {info : MessageInfo} {plan : List RedelegateStep} {resp : Response}

/-- An accepted plan, over the whole set. -/
theorem rebalance_moves (hnd : (addresses st.validators).Nodup)
    (h : executeManager info (.rebalance plan) st = .ok (st', resp)) :
    weightCeiling st' = weightCeiling st ∧ addresses st'.validators = addresses st.validators ∧
      ∀ v ∈ st.validators, ∃ v' ∈ st'.validators, v'.address = v.address ∧
        v'.bonded.val + losses plan v.address = v.bonded.val + gains plan v.address := by
  obtain ⟨_, hm, -⟩ | ⟨_, hm, -⟩ | ⟨_, acc, hm, hacc, rfl, -⟩ := executeManager_ok h
  · cases hm
  · cases hm
  cases hm
  obtain ⟨hs, hb, -⟩ := rebalance_ok hacc
  refine ⟨by simp only [weightCeiling, hb], by rw [addresses, hs, addresses], fun v hv => ?_⟩
  obtain ⟨i, hi, rfl⟩ := List.mem_iff_getElem.1 hv
  obtain ⟨v', hv', ha, hn⟩ := rebalance_net hacc hnd (List.getElem?_eq_getElem hi)
  exact ⟨v', List.mem_of_getElem? hv', ha, hn⟩

/-- **An accepted plan keeps the ceiling exactly when** no validator it sends more to than it
takes from is taken past the ceiling by the difference. -/
theorem rebalance_withinCeiling_iff (hR : Reachable st)
    (h : executeManager info (.rebalance plan) st = .ok (st', resp)) :
    WithinCeiling st st' ↔ PlanWithinCeiling plan st := by
  have hnd := hR.slotted.distinct
  obtain ⟨hceil, haddr, hmoves⟩ := rebalance_moves hnd h
  unfold WithinCeiling PlanWithinCeiling
  rw [hceil]
  constructor
  · intro hall v hv hlt
    obtain ⟨v', hv', ha, hn⟩ := hmoves v hv
    have := hall v hv v' hv' ha (by rw [Word.lt_def]; omega)
    omega
  · intro hall v hv u hu ha hlt
    obtain ⟨v', hv', ha', hn⟩ := hmoves v hv
    -- the entry with the address after the plan is the one the plan left
    obtain rfl := entry_unique (haddr ▸ hnd) hu hv' (ha.trans ha'.symm)
    rw [Word.lt_def] at hlt
    have := hall v hv (by omega)
    omega

/-- A weight change leaves every stake in place. -/
theorem applyWeights_bonded {weights : List ValidatorInit} {v v' : ValidatorEntry}
    (hnd : (addresses set).Nodup) (hv : v ∈ set) (hv' : v' ∈ Validators.applyWeights set weights)
    (ha : v'.address = v.address) : v'.bonded = v.bonded := by
  have haddr : ∀ e, (Validators.reweigh weights e).address = e.address := fun e =>
    congrArg Prod.fst (reweigh_slot weights e).1
  obtain ⟨new, he, -, hnew⟩ := applyWeights_ok weights (set.map (Validators.reweigh weights))
  rw [Validators.applyWeights, he, List.mem_append, List.mem_map] at hv'
  rcases hv' with ⟨u, hu, rfl⟩ | hn
  · rw [haddr] at ha
    rw [entry_unique hnd hu hv ha, (reweigh_slot weights v).2.1]
  · refine absurd ?_ (hnew v' hn).2.1
    rw [ha, ← haddr]
    exact List.mem_map_of_mem (List.mem_map_of_mem hv)

/-- A message of the manager whose plan, if it is one, stays within the ceiling. -/
def Managed (st : Storage) (e : Call × Response) : Prop :=
  ∃ deps env info m, e.1 = .execute deps env info (.manager m) ∧
    ∀ plan, m = .rebalance plan → PlanWithinCeiling plan st

/-- **One message of the manager.** -/
theorem Managed.step {e : Call × Response} (hR : Reachable st) (hm : Managed st e)
    (hs : Step st e st') : WithinCeiling st st' ∧ weightCeiling st' = weightCeiling st ∧
      addresses st.validators ⊆ addresses st'.validators := by
  obtain ⟨call, resp⟩ := e
  obtain ⟨deps, env, info, m, rfl, hplan⟩ := hm
  have hnd := hR.slotted.distinct
  have he : executeManager info m st = .ok (st', resp) := hs
  obtain ⟨weights, rfl, -, rfl, -⟩ | ⟨bps, rfl, -, rfl, -⟩ | ⟨plan, -, rfl, -⟩ := executeManager_ok he
  · -- new weights move no stake, and new entries have none
    obtain ⟨new, hsl, -, -, hb, -⟩ := slots_applyWeights st.validators weights
    refine ⟨fun v hv v' hv' ha hlt => ?_, by simp only [weightCeiling, hb], ?_⟩
    · rw [Word.lt_def, applyWeights_bonded hnd hv hv' ha] at hlt
      exact absurd hlt (Nat.lt_irrefl _)
    · simp only [addresses, hsl, List.map_append]
      exact List.subset_append_left _ _
  · refine ⟨fun v hv v' hv' ha hlt => ?_, rfl, fun _ ha => ha⟩
    obtain rfl := entry_unique hnd hv' hv ha
    exact absurd hlt (Nat.lt_irrefl _)
  · obtain ⟨hceil, haddr, -⟩ := rebalance_moves hnd he
    exact ⟨(rebalance_withinCeiling_iff hR he).2 (hplan plan rfl), hceil, haddr ▸ fun _ ha => ha⟩

/-- **The manager's ceiling.** An accepted plan keeps it exactly when no validator that the plan
sends more to than it takes from is taken past it by the difference; and after any sequence of
messages of the manager whose plans all do, whoever holds more than before is within it. -/
theorem manager_keeps_ceiling (hR : Reachable st) :
    (∀ deps env info plan st' resp,
      execute deps env info (.manager (.rebalance plan)) st = .ok (st', resp) →
      (WithinCeiling st st' ↔ PlanWithinCeiling plan st)) ∧
    ∀ hist st', Run (Guarded Step Managed) st hist st' → WithinCeiling st st' := by
  refine ⟨fun deps env info plan st' resp h => rebalance_withinCeiling_iff hR h, fun hist st' hr => ?_⟩
  -- whoever ends with more rose at the last message, or held as much before it
  have := hr.inv (P := fun s => Reachable s ∧ WithinCeiling st s ∧ weightCeiling s = weightCeiling st ∧
    addresses st.validators ⊆ addresses s.validators) ⟨hR, ?_, rfl, fun _ ha => ha⟩ ?_
  · exact this.2.1
  · intro v hv v' hv' ha hlt
    obtain rfl := entry_unique hR.slotted.distinct hv' hv ha
    exact absurd hlt (Nat.lt_irrefl _)
  · rintro s e s' ⟨hRs, hw, hc, hsub⟩ ⟨hs, hm⟩
    obtain ⟨hw', hc', hsub'⟩ := hm.step hRs hs
    refine ⟨hRs.step hs, fun v hv v' hv' ha hlt => ?_, hc'.trans hc, fun _ ha => hsub' (hsub ha)⟩
    have hmem := hsub (by rw [addresses_eq]; exact List.mem_map_of_mem hv)
    rw [addresses_eq, List.mem_map] at hmem
    obtain ⟨u, hu, hua⟩ := hmem
    by_cases hrose : u.bonded < v'.bonded
    · exact hw' u hu v' hv' (ha.trans hua.symm) hrose
    · rw [Word.lt_def] at hrose hlt
      have := hw v hv u hu hua (by rw [Word.lt_def]; omega)
      omega

/-! ## A plan past the ceiling -/

/-- The manager sends a plan that moves stake from the second validator to another. -/
def devMove (dst : String) (amount : Uint128) : ExecuteMsg :=
  .manager (.rebalance [⟨"validatortwo", dst, amount⟩])

/-- What the plan leaves. -/
def devMoved (dst : String) (amount : Uint128) (w : World) : Option (Storage × Response) :=
  (execute (w.deps devBonded 0) w.env ⟨"manager", []⟩ (devMove dst amount) w.store).toOption

set_option maxRecDepth 10000 in
/-- Of 110 SCRT the first validator holds 10, and 50 more are moved to it, where the ceiling is
27.5. -/
theorem plan_concentrates : ¬ ∀ (deps : Deps) (env : Env) (info : MessageInfo)
    (plan : List RedelegateStep) (st st' : Storage) (resp : Response), Reachable st →
    execute deps env info (.manager (.rebalance plan)) st = .ok (st', resp) →
    WithinCeiling st st' := by
  have hrun : ([devBootstrap, devDeposit].foldlM World.step devWorld).map (fun w =>
      (devMoved "validatorone" (Uint128.new 50000000) w).map fun r =>
        decide (∀ v ∈ w.store.validators, ∀ v' ∈ r.1.validators, v'.address = v.address →
          v.bonded < v'.bonded → v'.bonded.val ≤ weightCeiling r.1)) = some (some false) := by
    decide +kernel
  obtain ⟨w, hw, hs⟩ := Option.map_eq_some_iff.1 hrun
  obtain ⟨⟨st', resp⟩, hr, hnot⟩ := Option.map_eq_some_iff.1 hs
  rw [decide_eq_false_iff_not] at hnot
  exact fun hall => hnot (hall _ _ _ _ _ _ _ (World.replay_reachable devWorld_fresh hw)
    (toOption_eq_some.1 hr))

set_option maxRecDepth 10000 in
/-- Ten SCRT go to the third validator, which holds none. -/
theorem manager_keeps_ceiling_small : ∃ (deps : Deps) (env : Env) (info : MessageInfo)
    (plan : List RedelegateStep) (st st' : Storage) (resp : Response), Reachable st ∧
    execute deps env info (.manager (.rebalance plan)) st = .ok (st', resp) ∧
    gains plan "validatorthree" = 10000000 ∧ WithinCeiling st st' := by
  have hrun : ([devBootstrap, devDeposit].foldlM World.step devWorld).map (fun w =>
      ((devMoved "validatorthree" (Uint128.new 10000000) w).isSome,
        decide (PlanWithinCeiling [⟨"validatortwo", "validatorthree", Uint128.new 10000000⟩] w.store))) =
      some (true, true) := by
    decide +kernel
  obtain ⟨w, hw, hs⟩ := Option.map_eq_some_iff.1 hrun
  simp only [Prod.mk.injEq, Option.isSome_iff_exists, decide_eq_true_eq, Prod.exists] at hs
  obtain ⟨⟨st', resp, hr⟩, hplan⟩ := hs
  have hR := World.replay_reachable devWorld_fresh hw
  have hr := toOption_eq_some.1 hr
  exact ⟨_, _, _, _, _, _, _, hR, hr, by decide, ((manager_keeps_ceiling hR).1 _ _ _ _ _ _ hr).2 hplan⟩

end LstCore
