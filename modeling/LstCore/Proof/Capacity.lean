import LstCore.Proof.Closing
import LstCore.Proof.Plan

/-!
# What an undelegation can draw on

* `capacity`: the stake of the validators with a free slot.
* `planUndelegation_iff`: a plan exists exactly when the capacity covers the amount.
* `closeOpenWindow_iff`: so the open window can be closed exactly when it covers what the
  window owes, and the numbers of the queue stay in range.
-/

namespace LstCore

open Lib

variable {set : List ValidatorEntry} {maxEntries : ℕ}

/-- The stake of the validators with a free slot. -/
def capacity (maxEntries : ℕ) (set : List ValidatorEntry) : ℕ :=
  total (·.bonded) (set.filter (Validators.eligible maxEntries))

/-- No weight is above the whole. -/
def Weighted (set : List ValidatorEntry) : Prop := ∀ v ∈ set, v.weightBps ≤ bpsDenom

/-- Where every validator with stake has a free slot, all the stake can be drawn on. -/
theorem capacity_eq (h : ∀ v ∈ set, v.bonded ≠ 0 → v.activeUnbondEntries < maxEntries) :
    capacity maxEntries set = total (·.bonded) set := by
  induction set with
  | nil => rfl
  | cons v set ih =>
    have ih := ih fun u hu => h u (List.mem_cons_of_mem v hu)
    unfold capacity at ih ⊢
    rw [List.filter_cons]
    by_cases he : Validators.eligible maxEntries v = true
    · rw [if_pos he]
      simp only [total, List.map_cons, List.sum_cons] at ih ⊢
      rw [ih]
    · have hz : v.bonded = 0 := by
        by_contra hne
        exact he (by simp [Validators.eligible, hne, h v List.mem_cons_self hne])
      rw [if_neg he]
      simp only [total, List.map_cons, List.sum_cons, hz, Word.val_zero] at ih ⊢
      rw [ih, Nat.zero_add]

namespace Validators

/-- What the candidates leave of an amount. -/
theorem takeLegs_left : ∀ (cs : List Candidate) (r : Uint128),
    (takeLegs r cs).2.val = r.val - (cs.map (·.bonded.val)).sum := by
  intro cs
  induction cs with
  | nil => intro r; simp [takeLegs]
  | cons c cs ih =>
    intro r
    unfold takeLegs
    split
    · rename_i hz
      simp [hz]
    · rename_i hne
      simp only [List.map_cons, List.sum_cons]
      split
      · -- nothing is taken off a candidate without stake
        rename_i hz
        have hmin := Word.eq_zero_iff.1 hz
        rw [Word.val_min] at hmin
        have : r.val ≠ 0 := fun h => hne (Word.eq_zero_iff.2 h)
        rw [ih]
        omega
      · rw [ih, Word.val_satSub, Word.val_min]
        omega

/-- A target below the pool is computed. -/
theorem exists_target (pool : Uint128) {v : ValidatorEntry} (h : v.weightBps ≤ bpsDenom) :
    ∃ t, target pool v = .ok t := by
  have hle : pool.val * v.weightBps / bpsDenom ≤ pool.val :=
    Nat.div_le_of_le_mul (by rw [Nat.mul_comm]; exact Nat.mul_le_mul_right _ h)
  have := pool.isLt
  exact ⟨⟨_, by omega⟩, multiplyRatio_eq_ok.2 ⟨by decide, rfl⟩⟩

/-- **The candidates** can be had, and hold the capacity together. -/
theorem exists_candidates (maxEntries : ℕ) (pool : Uint128) (hw : Weighted set) :
    ∃ cs, (set.zipIdx.filter fun p => eligible maxEntries p.1).mapM
        (fun p => candidate pool p.1 p.2) = .ok cs ∧
      (cs.map (·.bonded.val)).sum = capacity maxEntries set := by
  obtain ⟨cs, hcs⟩ := mapM_total (l := set.zipIdx.filter fun p => eligible maxEntries p.1)
    (f := fun p => candidate pool p.1 p.2) fun p hp => by
      obtain ⟨hmem, -⟩ := List.mem_filter.1 hp
      obtain ⟨t, ht⟩ := exists_target pool
        (hw p.1 (List.mem_of_getElem? (List.mem_zipIdx_iff_getElem?.1 hmem)))
      exact ⟨_, by rw [candidate, ht]; rfl⟩
  refine ⟨cs, hcs, ?_⟩
  -- each candidate holds what its entry holds
  have hmap : cs.map (·.bonded.val) =
      (set.zipIdx.filter fun p => eligible maxEntries p.1).map fun p => p.1.bonded.val := by
    refine map_eq_of_forall₂ (fun p c hc => ?_) (mapM_eq_ok.1 hcs)
    simp only [candidate, bind_eq_ok, pure_eq_ok] at hc
    obtain ⟨t, -, rfl⟩ := hc
    rfl
  -- the positions do not decide who is eligible
  have hset : set.filter (eligible maxEntries) =
      (set.zipIdx.filter fun p => eligible maxEntries p.1).map Prod.fst := by
    conv_lhs => rw [← List.zipIdx_map_fst 0 set]
    rw [List.filter_map]
    rfl
  rw [hmap, capacity, hset, total, List.map_map]
  rfl

/-- **A plan exists exactly when the capacity covers the amount.** -/
theorem planUndelegation_iff {amount : Uint128} (hw : Weighted set)
    (hb : total (·.bonded) set < 2 ^ 128) :
    (∃ legs, planUndelegation set amount maxEntries = .ok legs) ↔
      amount.val ≤ capacity maxEntries set := by
  unfold planUndelegation
  split
  · rename_i hz
    simp [hz]
  · have hpool : totalBonded set = .ok ⟨total (·.bonded) set, hb⟩ := totalBonded_eq_ok.2 rfl
    obtain ⟨cs, hcs, hsum⟩ := exists_candidates maxEntries
      ⟨total (·.bonded) set, hb⟩ hw
    rw [hpool, ok_bind, hcs, ok_bind]
    -- the order in which the candidates are drawn on does not change what they leave
    have hperm := ((cs.perm_insertionSort Candidate.before).map (·.bonded.val)).sum_eq
    have hleft := takeLegs_left (cs.insertionSort Candidate.before) amount
    simp only [guard_eq_ok, Except.ok.injEq, ne_eq, not_not]
    rw [exists_and_left, Word.eq_zero_iff, hleft, hperm, hsum]
    simp only [exists_eq', and_true]
    omega

end Validators

/-! ## Closing -/

variable {env : Env} {st : Storage} {w : UnbondWindow}

/-- Every leg of a plan can be issued. -/
theorem exists_issue {denom : String} {acc : LegAcc} {legs : List Validators.UnbondLeg}
    (hd : Validators.Drawable acc.set maxEntries legs) :
    ∃ acc', legs.foldlM (issueLeg denom) acc = .ok acc' := by
  -- a leg fails only on a position outside the set, and no leg changes the length of the set
  have hstep : ∀ a, ∀ leg ∈ legs, a.set.length = acc.set.length →
      ∃ a', issueLeg denom a leg = .ok a' ∧ a'.set.length = acc.set.length := by
    intro a leg hleg hlen
    obtain ⟨v, hv, -⟩ := hd.covered leg hleg
    have hlt : leg.index < a.set.length := hlen ▸ (List.getElem?_eq_some_iff.1 hv).1
    refine ⟨_, issueLeg_eq_ok.2 ⟨_, List.getElem?_eq_getElem hlt, rfl⟩, ?_⟩
    rw [List.length_set, hlen]
  obtain ⟨acc', h, -⟩ := foldlM_total (fun a : LegAcc => a.set.length = acc.set.length) hstep rfl
  exact ⟨acc', h⟩

/-- **What a window owes can be undelegated** exactly when the capacity covers it and the
windows in flight can be booked. -/
theorem undelegateWindow_iff (hw : Weighted st.validators)
    (hb : total (·.bonded) st.validators < 2 ^ 128) :
    (∃ r, undelegateWindow st w = .ok r) ↔
      w.scrtOwed.val ≤ capacity st.config.params.maxUnbondEntriesPerValidator st.validators ∧
      (w.scrtOwed ≠ 0 → st.totals.scrtOwedUnbonding.val + w.scrtOwed.val < 2 ^ 128) := by
  rw [← Validators.planUndelegation_iff hw hb]
  unfold undelegateWindow
  split
  · rename_i hz
    simp [hz, Validators.planUndelegation]
  · rename_i hz
    simp only [bind_eq_ok, add_eq_ok, pure_eq_ok]
    constructor
    · rintro ⟨_, legs, hlegs, acc, -, ou, hou, -⟩
      exact ⟨⟨legs, hlegs⟩, fun _ => hou ▸ ou.isLt⟩
    · rintro ⟨⟨legs, hlegs⟩, hfit⟩
      obtain ⟨acc, hacc⟩ : ∃ acc, legs.foldlM (issueLeg st.config.bondedDenom)
          ⟨st.validators, w.validatorsUsed, []⟩ = .ok acc :=
        exists_issue (Validators.planUndelegation_ok hlegs).1
      exact ⟨_, legs, hlegs, acc, hacc, ⟨_, hfit hz⟩, rfl, rfl⟩

/-- A successor can be opened while there is an id for it. -/
theorem openNextWindow_iff : (∃ r, openNextWindow env st = .ok r) ↔ st.nextWindowId + 1 ≤ u64Max := by
  unfold openNextWindow allocWindowId
  split
  · rename_i h
    exact ⟨fun _ => h, fun _ => ⟨_, rfl⟩⟩
  · rename_i h
    simp [h, Bind.bind, Except.bind]

/-- **The open window can be closed** exactly when what it owes can be undelegated and there
is an id for its successor. -/
theorem closeOpenWindow_iff (hw : Weighted st.validators)
    (hb : total (·.bonded) st.validators < 2 ^ 128)
    (hl : st.windows.lookup st.openWindow = some w) :
    (∃ r, closeOpenWindow env st = .ok r) ↔
      w.scrtOwed.val ≤ capacity st.config.params.maxUnbondEntriesPerValidator st.validators ∧
      (w.scrtOwed ≠ 0 → st.totals.scrtOwedUnbonding.val + w.scrtOwed.val < 2 ^ 128) ∧
      st.nextWindowId + 1 ≤ u64Max := by
  -- filing the closed window takes no id
  have hfile : ∀ (st₁ : Storage) (c : UnbondWindow × Windows.Closure),
      (st₁.fileClosed st.openWindow c).nextWindowId = st₁.nextWindowId := by
    intro st₁ c
    unfold Storage.fileClosed
    dsimp only
    split <;> rfl
  rw [← and_assoc, ← undelegateWindow_iff (w := w) hw hb]
  unfold closeOpenWindow
  simp only [loadWindow, hl, orErr, ok_bind]
  constructor
  · rintro ⟨r, h⟩
    simp only [bind_eq_ok, Prod.exists] at h
    obtain ⟨st₁, used, messages, hu, id, st₂, hnext, -⟩ := h
    refine ⟨⟨_, hu⟩, ?_⟩
    have hid := openNextWindow_iff.1 ⟨_, hnext⟩
    obtain ⟨vs, ts, _, -, -, rfl⟩ := undelegateWindow_ok hu
    rwa [hfile] at hid
  · rintro ⟨⟨⟨st₁, used, messages⟩, hu⟩, hid⟩
    obtain ⟨⟨id, st₂⟩, hnext⟩ : ∃ r, openNextWindow env (st₁.fileClosed st.openWindow
        (Windows.close used env.time st₁.config.params.unbondingPeriodSecs)) = .ok r :=
      openNextWindow_iff.2 (by
        obtain ⟨vs, ts, _, -, -, rfl⟩ := undelegateWindow_ok hu
        rwa [hfile])
    rw [hu, ok_bind]
    exact ⟨_, by rw [hnext, ok_bind]; rfl⟩

end LstCore
