import LstCore.Proof.Drawing

/-!
# Planning an undelegation

A plan exists exactly when the eligible validators hold the amount. It draws the amount from
different ones of them, empties each before it goes on to the next, and takes them in order: those
on their way out first, and of the others those furthest above their targets
(`plan_undelegation_sound`).
-/

namespace LstCore

open Lib

namespace Validators

variable {set : List ValidatorEntry} {maxEntries : ℕ} {amount : Uint128} {legs : List UnbondLeg}

/-- A validator that is emptied before another is touched: one on its way out before an active one,
and of two of a kind the one further above its target. -/
def Prior (pool : ℕ) (u v : ValidatorEntry) : Prop :=
  (u.status ≠ .active ∧ v.status = .active) ∨
    ((u.status = .active ↔ v.status = .active) ∧ surplusOver pool v < surplusOver pool u)

/-- What a plan draws, and in which order. -/
structure Planned (set : List ValidatorEntry) (amount : Uint128) (maxEntries : ℕ)
    (legs : List UnbondLeg) : Prop where
  distinct : (legs.map (·.index)).Nodup
  covered : ∀ leg ∈ legs, ∃ v, set[leg.index]? = some v ∧ eligible maxEntries v = true ∧
    leg.amount ≠ 0 ∧ leg.amount ≤ v.bonded
  sum : (legs.map (·.amount.val)).sum = amount.val
  /-- Every leg but the last takes its validator whole. -/
  whole : ∀ pre leg post v, legs = pre ++ leg :: post → post ≠ [] → set[leg.index]? = some v →
    leg.amount = v.bonded
  /-- A validator is touched once every eligible one that is prior to it has been emptied. -/
  order : ∀ pre leg post v i u, legs = pre ++ leg :: post → set[leg.index]? = some v →
    set[i]? = some u → eligible maxEntries u = true → Prior (total (·.bonded) set) u v →
    ∃ l ∈ pre, l.index = i ∧ l.amount = u.bonded

/-- A candidate of a prior validator is not drawn on after the other's. -/
theorem Prior.not_before {pool : ℕ} {u v : ValidatorEntry} {c d : Candidate} (h : Prior pool u v)
    (hc : c.Of pool v) (hd : d.Of pool u) : ¬ c.before d := by
  have hs := hc.surplus
  have hs' := hd.surplus
  have hdrain := hc.drainFirst
  have hdrain' := hd.drainFirst
  simp only [Candidate.before, Word.lt_def, Word.ext_iff, hs, hs', hdrain, hdrain']
  rcases h with ⟨hu, hv⟩ | ⟨hiff, hlt⟩
  · rw [if_pos hv, if_neg hu]
    omega
  · by_cases hv : v.status = .active
    · rw [if_pos hv, if_pos (hiff.2 hv)]
      omega
    · rw [if_neg hv, if_neg fun hu => hv (hiff.1 hu)]
      omega

/-- **The legs that an order makes of an amount.** -/
theorem DrawOrder.planned {cs : List Candidate} (h : DrawOrder set maxEntries cs)
    (hleft : (takeLegs amount cs).2 = 0) : Planned set amount maxEntries (takeLegs amount cs).1 := by
  have hne := h.nonzero
  refine ⟨h.distinct.sublist (takeLegs_indices _ _), fun leg hleg => ?_, ?_, ?_, ?_⟩
  · obtain ⟨hz, c, hc, hi, hle⟩ := takeLegs_mem cs amount leg hleg
    obtain ⟨v, hv, he, hof⟩ := h.entry c hc
    exact ⟨v, hi ▸ hv, he, hz, hof.bonded ▸ hle⟩
  · have := takeLegs_sum cs amount
    rw [hleft] at this
    exact this
  · intro pre leg post v hlegs hpost hv
    obtain ⟨before, c, after, hcs, -, hi, -, hw⟩ := takeLegs_split hne hlegs
    obtain ⟨v', hv', -, hof⟩ := h.entry c (by rw [hcs]; simp)
    rw [← hi, hv] at hv'
    cases hv'
    rw [hw hpost, hof.bonded]
  · intro pre leg post v i u hlegs hv hu he hprior
    obtain ⟨before, c, after, hcs, hpre, hi, -, -⟩ := takeLegs_split hne hlegs
    obtain ⟨v', hv', -, hof⟩ := h.entry c (by rw [hcs]; simp)
    rw [← hi, hv] at hv'
    cases hv'
    obtain ⟨d, hd, hdi⟩ := h.complete i u hu he
    obtain ⟨u', hu', -, hof'⟩ := h.entry d hd
    rw [hdi, hu] at hu'
    cases hu'
    have hnot := hprior.not_before hof hof'
    -- the prior candidate is in front, where everything has been taken whole
    rw [hcs] at hd
    rcases List.mem_append.1 hd with hd | hd
    · exact ⟨d.whole, hpre ▸ List.mem_map_of_mem hd, hdi, hof'.bonded⟩
    · have hsorted := h.sorted
      rw [hcs, List.pairwise_append] at hsorted
      rcases List.mem_cons.1 hd with rfl | hd
      · exact absurd (refl_of Candidate.before d) hnot
      · exact absurd ((List.pairwise_cons.1 hsorted.2.1).1 d hd) hnot

/-- A plan that fails does so for want of capacity. -/
theorem planUndelegation_error (hw : Weighted set) (hb : total (·.bonded) set < 2 ^ 128)
    (h : ¬ ∃ legs, planUndelegation set amount maxEntries = .ok legs) :
    planUndelegation set amount maxEntries = .error (.err .noUnbondingCapacity) := by
  have hpool : totalBonded set = .ok ⟨total (·.bonded) set, hb⟩ := totalBonded_eq_ok.2 rfl
  obtain ⟨cs, hcs, -⟩ := exists_candidates maxEntries ⟨total (·.bonded) set, hb⟩ hw
  unfold planUndelegation at h ⊢
  rw [hpool, ok_bind, hcs, ok_bind] at h ⊢
  dsimp only at h ⊢
  split
  · rename_i hz
    exact absurd ⟨[], if_pos hz⟩ h
  · rename_i hne
    rw [if_neg hne] at h
    split
    · rfl
    · rename_i hleft
      exact absurd ⟨_, if_neg hleft⟩ h

/-- **Undelegation planning.** A plan fails, for want of capacity, exactly when the eligible
validators hold less than the amount; otherwise it draws the amount from different eligible ones,
each emptied before the next is touched, in the order of priority. -/
theorem plan_undelegation_sound (hw : ∀ v ∈ set, v.weightBps ≤ bpsDenom)
    (hb : total (·.bonded) set < 2 ^ 128) (hne : amount ≠ 0) :
    (planUndelegation set amount maxEntries = .error (.err .noUnbondingCapacity) ↔
      total (·.bonded) (set.filter (eligible maxEntries)) < amount.val) ∧
    (amount.val ≤ total (·.bonded) (set.filter (eligible maxEntries)) → ∃ legs,
      planUndelegation set amount maxEntries = .ok legs ∧ Planned set amount maxEntries legs) := by
  have hiff : (∃ legs, planUndelegation set amount maxEntries = .ok legs) ↔ amount.val ≤
      total (·.bonded) (set.filter (eligible maxEntries)) := planUndelegation_iff hw hb
  refine ⟨⟨fun herr => ?_, fun hlt => ?_⟩, fun hle => ?_⟩
  · by_contra hle
    obtain ⟨legs, hok⟩ := hiff.2 (not_lt.1 hle)
    rw [herr] at hok
    cases hok
  · refine planUndelegation_error hw hb fun hex => ?_
    have := hiff.1 hex
    omega
  · obtain ⟨legs, hok⟩ := hiff.2 hle
    obtain ⟨cs, hcs, hleft, rfl⟩ := (planUndelegation_eq_ok hne).1 hok
    exact ⟨_, hok, (drawOrder_ok hcs).planned hleft⟩

/-- A validator on its way out and two active ones, of which the smaller is above its target, and a
fourth without a free slot. -/
def devSet : List ValidatorEntry := [
  ⟨"one", 7000, .active, Uint128.new 60, 0, 0⟩, ⟨"two", 3000, .active, Uint128.new 40, 0, 0⟩,
  ⟨"three", 0, .draining, Uint128.new 10, 0, 0⟩, ⟨"four", 0, .draining, Uint128.new 10, 0, 6⟩]

/-- Of 110 to draw on, 70 are drawn in order; 111 are not there. -/
theorem plan_undelegation_four : (∃ legs,
      planUndelegation devSet (Uint128.new 70) 6 = .ok legs ∧
      legs = [⟨2, Uint128.new 10⟩, ⟨1, Uint128.new 40⟩, ⟨0, Uint128.new 20⟩] ∧
      Planned devSet (Uint128.new 70) 6 legs) ∧
    planUndelegation devSet (Uint128.new 111) 6 = .error (.err .noUnbondingCapacity) := by
  have hplan : planUndelegation devSet (Uint128.new 70) 6 =
      .ok [⟨2, Uint128.new 10⟩, ⟨1, Uint128.new 40⟩, ⟨0, Uint128.new 20⟩] := by decide +kernel
  obtain ⟨legs, hok, hplanned⟩ := (@plan_undelegation_sound devSet 6 (Uint128.new 70) (by decide)
    (by decide) (by decide)).2 (by decide)
  rw [hplan, Except.ok.injEq] at hok
  exact ⟨⟨legs, hok ▸ hplan, hok.symm, hplanned⟩,
    (plan_undelegation_sound (by decide) (by decide) (by decide)).1.2 (by decide)⟩

end Validators

end LstCore
