import LstCore.Proof.Capacity

/-!
# The order in which validators are drawn on

* `drawOrder`: the candidates of a set, the ones drawn on first in front.
* `drawOrder_ok`: which they are, and that they are sorted.
* `takeLegs_split`: a leg draws on a candidate once those before it have been taken whole.
* `planUndelegation_eq_ok`: a plan is what the order makes of the amount.
-/

namespace LstCore

open Lib

namespace Validators

variable {set : List ValidatorEntry} {maxEntries : ℕ} {amount pool : Uint128}
  {legs : List UnbondLeg} {cs : List Candidate}

/-! ## The order -/

instance : Std.Total Candidate.before where
  total a b := by
    simp only [Candidate.before, Word.lt_def, Word.ext_iff]
    omega

instance : IsTrans Candidate Candidate.before where
  trans a b c hab hbc := by
    simp only [Candidate.before, Word.lt_def, Word.ext_iff] at *
    omega

/-- The candidates of a set in the order in which they are drawn on. -/
def drawOrder (set : List ValidatorEntry) (maxEntries : ℕ) : Exec (List Candidate) := do
  let pool ← totalBonded set
  let candidates ← (set.zipIdx.filter fun p => eligible maxEntries p.1).mapM
    fun p => candidate pool p.1 p.2
  pure (candidates.insertionSort Candidate.before)

/-- What a validator holds beyond its target in a pool. -/
def surplusOver (pool : ℕ) (v : ValidatorEntry) : ℕ :=
  v.bonded.val - pool * v.weightBps / bpsDenom

/-- The candidate is the one that the entry makes. -/
structure Candidate.Of (pool : ℕ) (v : ValidatorEntry) (c : Candidate) : Prop where
  drainFirst : c.drainFirst = if v.status = .active then 1 else 0
  surplus : c.surplus.val = surplusOver pool v
  bonded : c.bonded = v.bonded

theorem candidate_ok {v : ValidatorEntry} {i : ℕ} {c : Candidate} (h : candidate pool v i = .ok c) :
    c.index = i ∧ c.Of pool.val v := by
  simp only [candidate, target, bind_eq_ok, multiplyRatio_eq_ok, pure_eq_ok] at h
  obtain ⟨t, ⟨-, ht⟩, rfl⟩ := h
  exact ⟨rfl, rfl, by rw [surplusOver, ← ht]; rfl, rfl⟩

/-- What the drawing order of a set is. -/
structure DrawOrder (set : List ValidatorEntry) (maxEntries : ℕ) (cs : List Candidate) : Prop where
  sorted : cs.Pairwise Candidate.before
  distinct : (cs.map (·.index)).Nodup
  entry : ∀ c ∈ cs, ∃ v, set[c.index]? = some v ∧ eligible maxEntries v = true ∧
    c.Of (total (·.bonded) set) v
  complete : ∀ i v, set[i]? = some v → eligible maxEntries v = true → ∃ c ∈ cs, c.index = i

/-- **The drawing order** has the eligible validators, each once, sorted. -/
theorem drawOrder_ok (h : drawOrder set maxEntries = .ok cs) : DrawOrder set maxEntries cs := by
  unfold drawOrder at h
  simp only [bind_eq_ok, totalBonded_eq_ok, pure_eq_ok] at h
  obtain ⟨pool, hpool, cs, hcs, rfl⟩ := h
  have hperm := cs.perm_insertionSort Candidate.before
  have hall := mapM_eq_ok.1 hcs
  refine ⟨List.pairwise_insertionSort _ _, (hperm.map _).nodup_iff.2 (candidates_ok hcs).1,
    fun c hc => ?_, fun i v hv he => ?_⟩
  · obtain ⟨p, hp, hpc⟩ := exists_of_forall₂ hall (hperm.mem_iff.1 hc)
    obtain ⟨hmem, hel⟩ := List.mem_filter.1 hp
    obtain ⟨hi, hof⟩ := candidate_ok hpc
    exact ⟨p.1, hi ▸ List.mem_zipIdx_iff_getElem?.1 hmem, hel, hpool ▸ hof⟩
  · have hmem : (v, i) ∈ set.zipIdx.filter fun p => eligible maxEntries p.1 :=
      List.mem_filter.2 ⟨List.mem_zipIdx_iff_getElem?.2 hv, he⟩
    obtain ⟨c, hc, hpc⟩ := exists_of_forall₂ (List.Forall₂.flip hall) hmem
    exact ⟨c, hperm.mem_iff.2 hc, (candidate_ok hpc).1⟩

/-- Nobody is drawn on without stake. -/
theorem DrawOrder.nonzero (h : DrawOrder set maxEntries cs) : ∀ c ∈ cs, c.bonded ≠ 0 := by
  intro c hc
  obtain ⟨v, -, he, hof⟩ := h.entry c hc
  simp only [eligible, Bool.and_eq_true, decide_eq_true_eq, ne_eq] at he
  exact hof.bonded ▸ he.1

/-! ## The legs -/

/-- The whole of what a candidate holds. -/
def Candidate.whole (c : Candidate) : UnbondLeg := ⟨c.index, c.bonded⟩

theorem takeLegs_zero (cs : List Candidate) : (takeLegs 0 cs).1 = [] := by
  cases cs <;> rfl

/-- Where something is left to draw, a candidate has been taken whole. -/
theorem min_eq_of_rest {r b : Uint128} (h : (takeLegs (r.satSub (r.min b)) cs).1 ≠ []) :
    r.min b = b ∧ b.val ≤ r.val := by
  have hle : b.val ≤ r.val := by
    by_contra hlt
    have hz : r.satSub (r.min b) = 0 := by
      rw [Word.eq_zero_iff, Word.val_satSub, Word.val_min]
      omega
    exact h (hz ▸ takeLegs_zero cs)
  refine ⟨Word.ext ?_, hle⟩
  rw [Word.val_min]
  exact Nat.min_eq_right hle

/-- A candidate with stake is drawn on while anything is left. -/
theorem takeLegs_cons {c : Candidate} {r : Uint128} (hr : r ≠ 0) (hc : c.bonded ≠ 0) :
    (takeLegs r (c :: cs)).1 =
      ⟨c.index, r.min c.bonded⟩ :: (takeLegs (r.satSub (r.min c.bonded)) cs).1 := by
  have htake : ¬ r.min c.bonded = 0 := by
    intro hz
    rw [Word.eq_zero_iff, Word.val_min] at hz
    rcases Nat.min_eq_zero_iff.1 hz with h | h
    · exact hr (Word.eq_zero_iff.2 h)
    · exact hc (Word.eq_zero_iff.2 h)
  rw [takeLegs, if_neg hr]
  simp only [if_neg htake]

/-- **What a leg draws on.** The candidates before it have been taken whole, and it takes what is
left of the amount, or all there is. -/
theorem takeLegs_split : ∀ {cs : List Candidate} {r : Uint128} {pre post : List UnbondLeg}
    {leg : UnbondLeg}, (∀ c ∈ cs, c.bonded ≠ 0) → (takeLegs r cs).1 = pre ++ leg :: post →
    ∃ before c after, cs = before ++ c :: after ∧ pre = before.map Candidate.whole ∧
      leg.index = c.index ∧
      leg.amount.val = min (r.val - (before.map (·.bonded.val)).sum) c.bonded.val ∧
      (post ≠ [] → leg.amount = c.bonded) := by
  intro cs
  induction cs with
  | nil =>
    intro r pre post leg _ h
    simp [takeLegs] at h
  | cons c cs ih =>
    intro r pre post leg hne h
    by_cases hr : r = 0
    · rw [hr, takeLegs_zero] at h
      simp at h
    · rw [takeLegs_cons hr (hne c List.mem_cons_self)] at h
      -- either it is the first leg, or the first candidate has been taken whole
      cases pre with
      | nil =>
        rw [List.nil_append, List.cons.injEq] at h
        obtain ⟨rfl, hrest⟩ := h
        exact ⟨[], c, cs, rfl, rfl, rfl, by simp, fun hpost => (min_eq_of_rest (hrest ▸ hpost)).1⟩
      | cons l pre =>
        rw [List.cons_append, List.cons.injEq] at h
        obtain ⟨rfl, hrest⟩ := h
        obtain ⟨hwhole, hle⟩ : r.min c.bonded = c.bonded ∧ c.bonded.val ≤ r.val :=
          min_eq_of_rest (by rw [hrest]; simp)
        obtain ⟨before, d, after, hcs, hpre, hi, ha, hw⟩ :=
          ih (fun d hd => hne d (List.mem_cons_of_mem _ hd)) hrest
        refine ⟨c :: before, d, after, by rw [hcs]; rfl, ?_, hi, ?_, hw⟩
        · rw [hwhole, hpre]
          rfl
        · rw [ha, hwhole, Word.val_satSub, List.map_cons, List.sum_cons, Nat.sub_sub]

/-- **Every candidate that the amount reaches is drawn on**, for what is left of the amount, or all
there is. -/
theorem takeLegs_reach : ∀ {before after : List Candidate} {c : Candidate} {r : Uint128},
    (∀ d ∈ before ++ c :: after, d.bonded ≠ 0) → (before.map (·.bonded.val)).sum < r.val →
    ∃ leg ∈ (takeLegs r (before ++ c :: after)).1, leg.index = c.index ∧
      leg.amount.val = min (r.val - (before.map (·.bonded.val)).sum) c.bonded.val := by
  intro before
  induction before with
  | nil =>
    intro after c r hne hlt
    have hr : r ≠ 0 := fun hz => by
      rw [hz] at hlt
      simp at hlt
    rw [List.nil_append, takeLegs_cons hr (hne c List.mem_cons_self)]
    exact ⟨_, List.mem_cons_self, rfl, by simp⟩
  | cons d before ih =>
    intro after c r hne hlt
    rw [List.map_cons, List.sum_cons] at hlt
    have hr : r ≠ 0 := fun hz => by
      rw [Word.eq_zero_iff] at hz
      omega
    rw [List.cons_append, takeLegs_cons hr (hne d List.mem_cons_self)]
    have hleft : (r.satSub (r.min d.bonded)).val = r.val - d.bonded.val := by
      rw [Word.val_satSub, Word.val_min]
      omega
    have hrest : (before.map (·.bonded.val)).sum < (r.satSub (r.min d.bonded)).val := by omega
    obtain ⟨leg, hleg, hi, ha⟩ := ih (fun e he => hne e (List.mem_cons_of_mem d he)) hrest
    refine ⟨leg, List.mem_cons_of_mem _ hleg, hi, ?_⟩
    rw [ha, hleft, List.map_cons, List.sum_cons, Nat.sub_sub]

/-! ## The plan -/

/-- **A plan is what the order makes of the amount.** -/
theorem planUndelegation_eq_ok (hne : amount ≠ 0) : planUndelegation set amount maxEntries = .ok legs ↔
    ∃ cs, drawOrder set maxEntries = .ok cs ∧ (takeLegs amount cs).2 = 0 ∧
      legs = (takeLegs amount cs).1 := by
  unfold planUndelegation drawOrder
  rw [if_neg hne]
  simp only [bind_eq_ok, guard_eq_ok, ne_eq, not_not, pure_eq_ok, Except.ok.injEq]
  constructor
  · rintro ⟨pool, hpool, cs, hcs, hleft, rfl⟩
    exact ⟨_, ⟨pool, hpool, cs, hcs, rfl⟩, hleft, rfl⟩
  · rintro ⟨_, ⟨pool, hpool, cs, hcs, rfl⟩, hleft, rfl⟩
    exact ⟨pool, hpool, cs, hcs, hleft, rfl⟩

end Validators

end LstCore
