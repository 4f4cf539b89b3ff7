import LstCore.Lib.Leader
import LstCore.Main.Planning

/-!
# Placing a deposit

Placement picks the active validator furthest below its target in the pool that the deposit makes,
the first of those that are equally far (`selectForDelegation_furthest`). The targets are rounded
down, by less than one each, so a deposit of at least as much as there are validators always finds
one strictly below its target (`placement_toward_weights`).
-/

namespace LstCore

open Lib

/-- The active validators of a set. -/
def actives (set : List ValidatorEntry) : List ValidatorEntry := set.filter fun v => v.status = .active

namespace Validators

variable {set : List ValidatorEntry} {incoming : Uint128} {v : ValidatorEntry} {i pool : ℕ}

/-- What a validator is short of its target in a pool. -/
def shortfall (pool : ℕ) (v : ValidatorEntry) : ℕ := pool * v.weightBps / bpsDenom - v.bonded.val

/-- The active validator furthest below its target, and the first of those that are as far. -/
structure Furthest (pool : ℕ) (set : List ValidatorEntry) (i : ℕ) (v : ValidatorEntry) : Prop where
  entry : set[i]? = some v
  active : v.status = .active
  greatest : ∀ (j : ℕ) u, set[j]? = some u → u.status = .active →
    shortfall pool u ≤ shortfall pool v
  first : ∀ (j : ℕ) u, set[j]? = some u → u.status = .active →
    shortfall pool u = shortfall pool v → i ≤ j

/-! ## The search -/

/-- The entries that a search can pick. -/
def contenders (l : List (ValidatorEntry × ℕ)) : List (ValidatorEntry × ℕ) :=
  l.filter fun p => p.1.status = .active

theorem mem_contenders : (v, i) ∈ contenders set.zipIdx ↔ set[i]? = some v ∧ v.status = .active := by
  rw [contenders, List.mem_filter, List.mem_zipIdx_iff_getElem?, decide_eq_true_eq]

theorem contenders_idle {l : List (ValidatorEntry × ℕ)} (h : v.status ≠ .active) :
    contenders (l ++ [(v, i)]) = contenders l := by
  rw [contenders, List.filter_append, List.filter_cons_of_neg (by simpa using h), List.filter_nil,
    List.append_nil]
  rfl

theorem contenders_active {l : List (ValidatorEntry × ℕ)} (h : v.status = .active) :
    contenders (l ++ [(v, i)]) = contenders l ++ [(v, i)] := by
  rw [contenders, List.filter_append, List.filter_cons_of_pos (by simpa using h), List.filter_nil]
  rfl

/-- The search for the greatest shortfall. -/
def leader (pool : ℕ) (l : List (ValidatorEntry × ℕ)) : Option (ValidatorEntry × ℕ) :=
  (contenders l).argmax fun p => shortfall pool p.1

theorem leader_idle {l : List (ValidatorEntry × ℕ)} (h : v.status ≠ .active) :
    leader pool (l ++ [(v, i)]) = leader pool l := by
  rw [leader, contenders_idle h, leader]

theorem leader_active {l : List (ValidatorEntry × ℕ)} (h : v.status = .active) :
    leader pool (l ++ [(v, i)]) = match leader pool l with
      | none => some (v, i)
      | some p => if shortfall pool p.1 < shortfall pool v then some (v, i) else some p := by
  unfold leader
  rw [contenders_active h, argmax_snoc]
  cases (contenders l).argmax fun p => shortfall pool p.1 <;> rfl

/-- **Whoever leads at the end** is the furthest below its target. -/
theorem furthest_of_leader (h : leader pool set.zipIdx = some (v, i)) : Furthest pool set i v := by
  obtain ⟨hmem, hmax, -⟩ := List.argmax_eq_some_iff.1 h
  obtain ⟨hv, hactive⟩ := mem_contenders.1 hmem
  -- entries come in the order of their positions
  have hsorted : (contenders set.zipIdx).Pairwise fun p q => p.2 < q.2 := by
    refine List.Pairwise.filter _ ?_
    rw [← List.pairwise_map (f := Prod.snd) (R := (· < ·)), List.zipIdx_map_snd]
    exact List.pairwise_lt_range'
  refine ⟨hv, hactive, fun j u hu ha => hmax (u, j) (mem_contenders.2 ⟨hu, ha⟩),
    fun j u hu ha heq => ?_⟩
  rcases argmax_first hsorted h (mem_contenders.2 ⟨hu, ha⟩) heq.ge with he | hlt
  · exact (Prod.mk.inj he).2.le
  · exact hlt.le

/-- One turn of the search. -/
def searchStep (after : Uint128) (best : Option (ℕ × Uint128)) (p : ValidatorEntry × ℕ) :
    Exec (Option (ℕ × Uint128)) :=
  if p.1.status.acceptsStake then do
    let t ← target after p.1
    let deficit := t.satSub p.1.bonded
    match best with
    | some (i, d) => if deficit ≤ d then pure (some (i, d)) else pure (some (p.2, deficit))
    | none => pure (some (p.2, deficit))
  else pure best

theorem selectForDelegation_eq_ok : selectForDelegation set incoming = .ok i ↔ ∃ after d,
    after.val = total (·.bonded) set + incoming.val ∧
    set.zipIdx.foldlM (searchStep after) none = .ok (some (i, d)) := by
  unfold selectForDelegation
  simp only [bind_eq_ok, totalBonded_eq_ok, orErr_eq_ok, Word.add?_eq_some]
  constructor
  · rintro ⟨bonded, hbonded, after, hafter, best, hbest, h⟩
    split at h
    · rename_i j d
      cases h
      exact ⟨after, d, by rw [hafter, hbonded], hbest⟩
    · cases h
  · rintro ⟨after, d, hafter, hbest⟩
    exact ⟨⟨total (·.bonded) set, by have := after.isLt; omega⟩, rfl, after, hafter, _, hbest, rfl⟩

theorem searchStep_idle {after : Uint128} {best : Option (ℕ × Uint128)} (h : v.status ≠ .active) :
    searchStep after best (v, i) = .ok best :=
  if_neg (by simpa [ValidatorStatus.acceptsStake] using h)

/-- A turn on an active validator: it takes the lead when it is short of more. -/
theorem searchStep_active {after t : Uint128} {best : Option (ℕ × Uint128)} (h : v.status = .active)
    (ht : target after v = .ok t) : searchStep after best (v, i) = .ok (match best with
      | none => some (i, t.satSub v.bonded)
      | some q => if q.2 < t.satSub v.bonded then some (i, t.satSub v.bonded) else some q) := by
  unfold searchStep
  rw [if_pos (by simpa [ValidatorStatus.acceptsStake] using h), ht, ok_bind]
  cases best with
  | none => rfl
  | some q =>
    dsimp only
    by_cases hle : t.satSub v.bonded ≤ q.2
    · have hlt : ¬ q.2 < t.satSub v.bonded := fun h => absurd (Word.le_def.1 hle) (Nat.not_le.2 h)
      rw [if_pos hle, if_neg hlt]
      rfl
    · have hlt : q.2 < t.satSub v.bonded := Nat.not_le.1 hle
      rw [if_neg hle, if_pos hlt]
      rfl

/-- The best of a search is the leader of what it has passed. -/
def Leads (pool : ℕ) (seen : List (ValidatorEntry × ℕ)) (best : Option (ℕ × Uint128)) : Prop :=
  best.map (fun q => (q.1, q.2.val)) = (leader pool seen).map fun p => (p.2, shortfall pool p.1)

theorem searchStep_leads {after : Uint128} {seen : List (ValidatorEntry × ℕ)}
    {best best' : Option (ℕ × Uint128)} (hlead : Leads after.val seen best)
    (h : searchStep after best (v, i) = .ok best') : Leads after.val (seen ++ [(v, i)]) best' := by
  unfold Leads at hlead ⊢
  by_cases hactive : v.status = .active
  · rcases ht : target after v with e | t
    · unfold searchStep at h
      rw [if_pos (by simpa [ValidatorStatus.acceptsStake] using hactive), ht] at h
      cases h
    rw [searchStep_active hactive ht, Except.ok.injEq] at h
    rw [leader_active hactive, ← h]
    have hshort : (t.satSub v.bonded).val = shortfall after.val v := by
      rw [Word.val_satSub, (multiplyRatio_eq_ok.1 ht).2, shortfall]
    cases hl : leader after.val seen with
    | none =>
      rw [hl, Option.map_none, Option.map_eq_none_iff] at hlead
      rw [hlead, Option.map_some, Option.map_some, hshort]
    | some m =>
      rw [hl, Option.map_some, Option.map_eq_some_iff] at hlead
      obtain ⟨⟨k, d⟩, rfl, he⟩ := hlead
      obtain ⟨rfl, hd⟩ := Prod.mk.inj he
      have hiff : d < t.satSub v.bonded ↔ shortfall after.val m.1 < shortfall after.val v := by
        rw [Word.lt_def, hshort, hd]
      dsimp only
      by_cases hlt : d < t.satSub v.bonded
      · rw [if_pos hlt, if_pos (hiff.1 hlt), Option.map_some, Option.map_some, hshort]
      · rw [if_neg hlt, if_neg (mt hiff.2 hlt), Option.map_some, Option.map_some, hd]
  · rw [searchStep_idle hactive, Except.ok.injEq] at h
    rw [leader_idle hactive, ← h]
    exact hlead

/-- **The search finds the leader.** -/
theorem search_leads {after : Uint128} {best : Option (ℕ × Uint128)}
    (h : set.zipIdx.foldlM (searchStep after) none = .ok best) : Leads after.val set.zipIdx best := by
  have hstart : ∃ seen, set.zipIdx = seen ++ set.zipIdx ∧ Leads after.val seen none := ⟨[], rfl, rfl⟩
  have hinv := foldlM_inv (f := searchStep after) (fun rest best => ∃ seen,
    set.zipIdx = seen ++ rest ∧ Leads after.val seen best) ?_ _ _ _ hstart h
  · obtain ⟨seen, hseen, hlead⟩ := hinv
    rwa [hseen, List.append_nil]
  · rintro ⟨v, j⟩ rest best best' ⟨seen, hseen, hlead⟩ hstep
    exact ⟨seen ++ [(v, j)], by rw [hseen, List.append_assoc]; rfl, searchStep_leads hlead hstep⟩

/-- **Placement picks the furthest below its target.** -/
theorem selectForDelegation_furthest (h : selectForDelegation set incoming = .ok i) :
    ∃ v, Furthest (total (·.bonded) set + incoming.val) set i v := by
  obtain ⟨after, d, hafter, hbest⟩ := selectForDelegation_eq_ok.1 h
  have hleads : Leads after.val set.zipIdx (some (i, d)) := search_leads hbest
  rw [Leads, Option.map_some, eq_comm, Option.map_eq_some_iff] at hleads
  obtain ⟨⟨v, j⟩, hlead, he⟩ := hleads
  obtain rfl : j = i := (Prod.mk.inj he).1
  exact ⟨v, hafter ▸ furthest_of_leader hlead⟩

/-! ## Targets -/

theorem total_actives_le (f : ValidatorEntry → Uint128) : total f (actives set) ≤ total f set :=
  (List.filter_sublist.map _).sum_le_sum fun _ _ => Nat.zero_le _

/-- **Somebody is strictly below its target**, if the pool holds more than is bonded by at least one
for each active validator. -/
theorem exists_below {bonded : ℕ} (hwhole : ((actives set).map (·.weightBps)).sum = bpsDenom)
    (hbonded : total (·.bonded) (actives set) ≤ bonded)
    (hroom : bonded + (actives set).length ≤ pool) :
    ∃ u ∈ actives set, u.bonded.val < pool * u.weightBps / bpsDenom := by
  by_contra hno
  push Not at hno
  have hne : actives set ≠ [] := fun h => by simp [h, bpsDenom] at hwhole
  have hfloors := lt_sum_div (fun u : ValidatorEntry => u.weightBps) pool
    (show 0 < bpsDenom by decide) hne
  -- nobody's target exceeds its stake, so the targets together miss more than rounding loses
  have htargets : ((actives set).map fun u => pool * u.weightBps / bpsDenom).sum ≤
      total (·.bonded) (actives set) := List.sum_le_sum hno
  rw [hwhole, Nat.mul_comm] at hfloors
  have := Nat.lt_of_mul_lt_mul_left hfloors
  omega

/-- Placement finds somebody. -/
theorem selectForDelegation_total (hwhole : ((actives set).map (·.weightBps)).sum = bpsDenom)
    (hfit : total (·.bonded) set + incoming.val < 2 ^ 128) :
    ∃ i, selectForDelegation set incoming = .ok i := by
  let after : Uint128 := ⟨total (·.bonded) set + incoming.val, hfit⟩
  -- a target is at most the pool, so no turn of the search fails
  have hturn : ∀ best, ∀ p ∈ set.zipIdx, True → ∃ best', searchStep after best p = .ok best' ∧ True := by
    rintro best ⟨v, j⟩ hp -
    by_cases hactive : v.status = .active
    · have hmem : v ∈ actives set := List.mem_filter.2
        ⟨List.mem_of_getElem? (List.mem_zipIdx_iff_getElem?.1 hp), by simpa using hactive⟩
      have hweight : v.weightBps ≤ bpsDenom := hwhole ▸
        List.single_le_sum (fun _ _ => Nat.zero_le _) _ (List.mem_map_of_mem hmem)
      have hle : after.val * v.weightBps / bpsDenom ≤ after.val :=
        Nat.div_le_of_le_mul (by rw [Nat.mul_comm]; exact Nat.mul_le_mul_right _ hweight)
      have ht : target after v = .ok ⟨_, hle.trans_lt after.isLt⟩ :=
        multiplyRatio_eq_ok.2 ⟨by decide, rfl⟩
      exact ⟨_, searchStep_active hactive ht, trivial⟩
    · exact ⟨best, searchStep_idle hactive, trivial⟩
  obtain ⟨best, hbest, -⟩ := foldlM_total (fun _ => True) hturn trivial
  rcases best with _ | ⟨i, d⟩
  · -- somebody is active, so somebody leads
    have hlead := search_leads hbest
    rw [Leads, Option.map_none, eq_comm, Option.map_eq_none_iff, leader, List.argmax_eq_none] at hlead
    obtain ⟨v, hv⟩ := List.exists_mem_of_ne_nil (actives set) fun h => by simp [h, bpsDenom] at hwhole
    obtain ⟨hmem, hactive⟩ := List.mem_filter.1 hv
    obtain ⟨j, hj⟩ := List.getElem?_of_mem hmem
    have := mem_contenders.2 ⟨hj, by simpa using hactive⟩
    rw [hlead] at this
    cases this
  · exact ⟨i, selectForDelegation_eq_ok.2 ⟨after, d, rfl, hbest⟩⟩

/-- **Placement moves the stake toward the weights.** Where the active weights are the whole and the
total fits, placement picks the active validator furthest below its target in the pool after the
deposit, the first such one. A deposit of at least as much as there are validators is placed with
one that has weight and is strictly below its target. -/
theorem placement_toward_weights (hwhole : ((actives set).map (·.weightBps)).sum = bpsDenom)
    (hfit : total (·.bonded) set + incoming.val < 2 ^ 128) :
    ∃ i v, selectForDelegation set incoming = .ok i ∧
      Furthest (total (·.bonded) set + incoming.val) set i v ∧
      (set.length ≤ incoming.val → 0 < v.weightBps ∧
        v.bonded.val < (total (·.bonded) set + incoming.val) * v.weightBps / bpsDenom) := by
  obtain ⟨i, hi⟩ := selectForDelegation_total hwhole hfit
  obtain ⟨v, hv⟩ := selectForDelegation_furthest hi
  refine ⟨i, v, hi, hv, fun hlen => ?_⟩
  have hfew : (actives set).length ≤ set.length := List.length_filter_le _ _
  obtain ⟨u, hu, hbelow⟩ : ∃ u ∈ actives set,
      u.bonded.val < (total (·.bonded) set + incoming.val) * u.weightBps / bpsDenom :=
    exists_below hwhole (total_actives_le _) (by omega)
  obtain ⟨hmem, hactive⟩ := List.mem_filter.1 hu
  obtain ⟨j, hj⟩ := List.getElem?_of_mem hmem
  have hle := hv.greatest j u hj (by simpa using hactive)
  have hshort : v.bonded.val < (total (·.bonded) set + incoming.val) * v.weightBps / bpsDenom := by
    unfold shortfall at hle
    omega
  refine ⟨Nat.pos_of_ne_zero fun hz => ?_, hshort⟩
  rw [hz, Nat.mul_zero, Nat.zero_div] at hshort
  exact Nat.not_lt_zero _ hshort

/-- A set with most of its stake on a validator on its way out. -/
def lopsided : List ValidatorEntry := [
  ⟨"validatorone", 0, .draining, Uint128.new 500000000, 0, 0⟩,
  ⟨"validatortwo", 2500, .active, Uint128.new 30000000, 0, 0⟩,
  ⟨"validatorthree", 7500, .active, Uint128.new 10000000, 0, 0⟩]

theorem placement_toward_weights_lopsided : ∃ i v,
    selectForDelegation lopsided (Uint128.new 5000000) = .ok i ∧
      Furthest (total (·.bonded) lopsided + 5000000) lopsided i v ∧ 0 < v.weightBps ∧
      v.bonded.val < (total (·.bonded) lopsided + 5000000) * v.weightBps / bpsDenom := by
  obtain ⟨i, v, hi, hv, hbelow⟩ := @placement_toward_weights lopsided
    (Uint128.new 5000000) (by decide) (by decide)
  obtain ⟨hweight, hshort⟩ := hbelow (by decide)
  exact ⟨i, v, hi, hv, hweight, hshort⟩

end Validators

end LstCore
