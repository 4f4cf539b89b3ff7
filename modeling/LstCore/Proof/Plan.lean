import LstCore.Proof.Sets

/-!
# Planning and issuing an undelegation

* `planUndelegation_ok`: the legs of a plan name different validators, each with a free
  slot and at least the leg's stake, and add up to the amount.
* `issueLegs_ok`: issuing them takes one slot from each validator named, lists its
  address once, and takes the amount out of the stake.
* `slots_release`: giving slots back takes one off the counter for each mention.
-/

namespace LstCore

open Lib

namespace Validators

/-! ## The plan -/

theorem takeLegs_indices : ∀ (cs : List Candidate) (r : Uint128),
    ((takeLegs r cs).1.map (·.index)).Sublist (cs.map (·.index)) := by
  intro cs
  induction cs with
  | nil => intro r; simp [takeLegs]
  | cons c cs ih =>
    intro r
    unfold takeLegs
    split
    · simp
    · simp only
      split
      · exact (ih r).cons _
      · exact (ih _).cons_cons _

/-- Every leg draws on a candidate no more than it holds, and not nothing. -/
theorem takeLegs_mem : ∀ (cs : List Candidate) (r : Uint128), ∀ leg ∈ (takeLegs r cs).1,
    leg.amount ≠ 0 ∧ ∃ c ∈ cs, leg.index = c.index ∧ leg.amount ≤ c.bonded := by
  intro cs
  induction cs with
  | nil => intro r leg h; simp [takeLegs] at h
  | cons c cs ih =>
    intro r leg h
    unfold takeLegs at h
    split at h
    · simp at h
    · simp only at h
      split at h
      · obtain ⟨h0, d, hd, hi, hb⟩ := ih r leg h
        exact ⟨h0, d, List.mem_cons_of_mem _ hd, hi, hb⟩
      · rename_i hne
        rcases List.mem_cons.1 h with rfl | h
        · refine ⟨hne, c, List.mem_cons_self, rfl, ?_⟩
          rw [Word.le_def, Word.val_min]
          exact Nat.min_le_right _ _
        · obtain ⟨h0, d, hd, hi, hb⟩ := ih _ leg h
          exact ⟨h0, d, List.mem_cons_of_mem _ hd, hi, hb⟩

/-- The legs and what is left make up the amount. -/
theorem takeLegs_sum : ∀ (cs : List Candidate) (r : Uint128),
    ((takeLegs r cs).1.map (·.amount.val)).sum + (takeLegs r cs).2.val = r.val := by
  intro cs
  induction cs with
  | nil => intro r; simp [takeLegs]
  | cons c cs ih =>
    intro r
    unfold takeLegs
    split
    · simp
    · simp only
      split
      · exact ih r
      · have h := ih (r.satSub (r.min c.bonded))
        simp only [List.map_cons, List.sum_cons, Word.val_satSub, Word.val_min] at h ⊢
        omega

/-- The candidates are the eligible entries, at their positions. -/
theorem candidates_ok {set : List ValidatorEntry} {pool : Uint128} {maxEntries : ℕ}
    {cs : List Candidate}
    (h : (set.zipIdx.filter fun p => eligible maxEntries p.1).mapM
      (fun p => candidate pool p.1 p.2) = .ok cs) :
    (cs.map (·.index)).Nodup ∧
      ∀ c ∈ cs, ∃ v, set[c.index]? = some v ∧ c.bonded = v.bonded ∧
        v.activeUnbondEntries < maxEntries := by
  rw [mapM_eq_ok] at h
  have hc : ∀ (p : ValidatorEntry × ℕ) (c : Candidate), candidate pool p.1 p.2 = .ok c →
      c.index = p.2 ∧ c.bonded = p.1.bonded := by
    intro p c hc
    simp only [candidate, bind_eq_ok, pure_eq_ok] at hc
    obtain ⟨t, -, rfl⟩ := hc
    exact ⟨rfl, rfl⟩
  constructor
  · rw [map_eq_of_forall₂ (g := Prod.snd) (fun p c hpc => (hc p c hpc).1) h]
    refine List.Nodup.sublist (List.filter_sublist.map _) ?_
    rw [List.zipIdx_map_snd]
    exact List.nodup_range'
  · intro c hmem
    obtain ⟨p, hp, hpc⟩ := exists_of_forall₂ h hmem
    obtain ⟨hmem', hel⟩ := List.mem_filter.1 hp
    obtain ⟨hi, hb⟩ := hc p c hpc
    refine ⟨p.1, ?_, hb, ?_⟩
    · rw [hi]; exact List.mem_zipIdx_iff_getElem?.1 hmem'
    · simp only [eligible, Bool.and_eq_true, decide_eq_true_eq] at hel
      exact hel.2

/-- What a plan is good for: different validators, each with a free slot and the stake the
leg draws. -/
structure Drawable (set : List ValidatorEntry) (maxEntries : ℕ) (legs : List UnbondLeg) : Prop where
  distinct : (legs.map (·.index)).Nodup
  covered : ∀ leg ∈ legs, ∃ v, set[leg.index]? = some v ∧ leg.amount ≤ v.bonded ∧
    v.activeUnbondEntries < maxEntries

/-- **A plan draws on different validators with free slots, and adds up to the amount.** -/
theorem planUndelegation_ok {set : List ValidatorEntry} {amount : Uint128} {maxEntries : ℕ}
    {legs : List UnbondLeg} (h : planUndelegation set amount maxEntries = .ok legs) :
    Drawable set maxEntries legs ∧ (legs.map (·.amount.val)).sum = amount.val := by
  unfold planUndelegation at h
  split at h
  · rename_i hz
    simp only [Except.ok.injEq] at h
    subst h
    exact ⟨⟨by simp, by simp⟩, by simp [hz]⟩
  · simp only [bind_eq_ok, guard_eq_ok, Except.ok.injEq, ne_eq, not_not] at h
    obtain ⟨pool, -, cs, hcs, hleft, rfl⟩ := h
    obtain ⟨hnd, hmem⟩ := candidates_ok hcs
    have hperm := cs.perm_insertionSort Candidate.before
    refine ⟨⟨?_, ?_⟩, ?_⟩
    · exact List.Nodup.sublist (takeLegs_indices _ _) ((hperm.map _).nodup_iff.2 hnd)
    · intro leg hleg
      obtain ⟨-, c, hc, hi, hb⟩ := takeLegs_mem _ _ leg hleg
      obtain ⟨v, hv, hbv, hfree⟩ := hmem c (hperm.mem_iff.1 hc)
      exact ⟨v, hi ▸ hv, hbv ▸ hb, hfree⟩
    · have := takeLegs_sum (cs.insertionSort Candidate.before) amount
      rw [hleft] at this
      simpa using this

end Validators

/-! ## Slots taken and given back -/

variable {set set' : List ValidatorEntry} {i : ℕ} {v v' : ValidatorEntry}

/-- The slots with one more entry for each address listed. -/
def taken (used : List String) (s : String × ℕ) : String × ℕ :=
  (s.1, s.2 + if s.1 ∈ used then 1 else 0)

/-- The slots with one entry less for each mention. -/
def released (mentions : List String) (s : String × ℕ) : String × ℕ :=
  (s.1, s.2 - mentions.count s.1)

@[simp] theorem taken_nil : taken [] = id := by funext s; simp [taken]

@[simp] theorem released_nil : released [] = id := by funext s; simp [released]

/-- Taking a slot of one entry, in a set that lists each validator once. -/
theorem slots_take : ∀ {set : List ValidatorEntry} {i : ℕ}, (set.map (·.address)).Nodup →
    set[i]? = some v → slot v' = (v.address, v.activeUnbondEntries + 1) →
    slots (set.set i v') = (slots set).map (taken [v.address]) := by
  intro set
  induction set with
  | nil => intro i _ h; simp at h
  | cons u set ih =>
    intro i hnd h hs
    rw [List.map_cons, List.nodup_cons] at hnd
    -- the rest of the set has other addresses
    cases i with
    | zero =>
      simp only [List.getElem?_cons_zero, Option.some.injEq] at h
      subst h
      have hrest : ∀ s ∈ slots set, taken [u.address] s = s := by
        intro s hs
        obtain ⟨e, he, rfl⟩ := List.mem_map.1 hs
        have : e.address ≠ u.address := fun heq => hnd.1 (heq ▸ List.mem_map_of_mem he)
        simp [taken, slot, this]
      simp only [slots, List.set_cons_zero, List.map_cons, hs] at hrest ⊢
      rw [List.map_congr_left hrest]
      simp [taken, slot]
    | succ i =>
      rw [List.getElem?_cons_succ] at h
      have hne : u.address ≠ v.address := fun heq =>
        hnd.1 (heq ▸ List.mem_map_of_mem (List.mem_of_getElem? h))
      have := ih hnd.2 h hs
      simp only [slots, List.set_cons_succ, List.map_cons] at this ⊢
      rw [this]
      simp [taken, slot, hne]

theorem issueLeg_eq_ok {denom : String} {acc mid : LegAcc} {leg : Validators.UnbondLeg} :
    issueLeg denom acc leg = .ok mid ↔ ∃ v, acc.set[leg.index]? = some v ∧ mid = {
      set := acc.set.set leg.index { v with
        bonded := v.bonded.satSub leg.amount
        activeUnbondEntries := min (v.activeUnbondEntries + 1) u8Max }
      used := acc.used ++ [v.address]
      messages := acc.messages ++ [.undelegate v.address ⟨denom, leg.amount⟩] } := by
  simp only [issueLeg, bind_eq_ok, orPanic_eq_ok, pure_eq_ok, eq_comm (a := mid)]

/-- **Issuing one leg** takes a slot and the stake of the validator it draws on. -/
theorem issueLeg_ok {denom : String} {maxEntries : ℕ} (hmax : maxEntries < u8Max)
    {leg : Validators.UnbondLeg} {acc mid : LegAcc} (h : issueLeg denom acc leg = .ok mid)
    (hnd : (acc.set.map (·.address)).Nodup)
    (hc : ∃ v, acc.set[leg.index]? = some v ∧ leg.amount ≤ v.bonded ∧
      v.activeUnbondEntries < maxEntries) :
    ∃ v, acc.set[leg.index]? = some v ∧ (∀ j ≠ leg.index, mid.set[j]? = acc.set[j]?) ∧
      mid.used = acc.used ++ [v.address] ∧
      mid.messages = acc.messages ++ [.undelegate v.address ⟨denom, leg.amount⟩] ∧
      slots mid.set = (slots acc.set).map (taken [v.address]) ∧
      mid.set.map (·.address) = acc.set.map (·.address) ∧
      total (·.bonded) mid.set + leg.amount.val = total (·.bonded) acc.set ∧
      total (·.pendingRewards) mid.set = total (·.pendingRewards) acc.set := by
  obtain ⟨v, hv, rfl⟩ := issueLeg_eq_ok.1 h
  obtain ⟨v₀, hv₀, hle, hfree⟩ := hc
  rw [hv] at hv₀
  cases hv₀
  set v' : ValidatorEntry := { v with
    bonded := v.bonded.satSub leg.amount
    activeUnbondEntries := min (v.activeUnbondEntries + 1) u8Max } with hv'
  -- neither of the two saturates: the slot was free and the stake was there
  have hslot : slot v' = (v.address, v.activeUnbondEntries + 1) := by
    simp only [slot, hv', Prod.mk.injEq, true_and]; omega
  have hslots := slots_take hnd hv hslot
  have haddr : (acc.set.set leg.index v').map (·.address) = acc.set.map (·.address) := by
    have := congrArg (List.map Prod.fst) hslots
    simpa [slots, slot, taken, Function.comp_def] using this
  have hb := total_set (·.bonded) v' hv
  have hp := total_set (·.pendingRewards) v' hv
  refine ⟨v, hv, fun j hj => List.getElem?_set_ne (Ne.symm hj), rfl, rfl, hslots,
    haddr, ?_, ?_⟩
  · have := Word.le_def.1 hle
    simp only [hv', Word.val_satSub] at hb ⊢
    omega
  · simp only [hv'] at hp ⊢
    omega

/-- **Issuing a plan** takes one slot of each validator named and lists it once. -/
theorem issueLegs_ok {denom : String} {maxEntries : ℕ} (hmax : maxEntries < u8Max) :
    ∀ (legs : List Validators.UnbondLeg) (acc acc' : LegAcc),
      legs.foldlM (issueLeg denom) acc = .ok acc' → (acc.set.map (·.address)).Nodup →
      Validators.Drawable acc.set maxEntries legs →
      ∃ used : List String, acc'.used = acc.used ++ used ∧ used.Nodup ∧
        used.length = legs.length ∧
        (∀ a ∈ used, ∃ leg ∈ legs, ∃ v, acc.set[leg.index]? = some v ∧ v.address = a) ∧
        slots acc'.set = (slots acc.set).map (taken used) ∧
        total (·.bonded) acc'.set + (legs.map (·.amount.val)).sum = total (·.bonded) acc.set ∧
        total (·.pendingRewards) acc'.set = total (·.pendingRewards) acc.set ∧
        acc'.messages = acc.messages ++
          List.zipWith (fun a leg => .undelegate a ⟨denom, leg.amount⟩) used legs := by
  intro legs
  induction legs with
  | nil =>
    intro acc acc' h _ _
    simp only [List.foldlM_nil, pure_eq_ok] at h
    subst h
    exact ⟨[], by simp, by simp, by simp, by simp, by simp, by simp, rfl, by simp⟩
  | cons leg legs ih =>
    intro acc acc' h hnd hd
    rw [List.foldlM_cons, bind_eq_ok] at h
    obtain ⟨mid, hmid, h⟩ := h
    obtain ⟨v, hv, hkeep, hused, hmsgs, hslots, haddr, hb, hp⟩ :=
      issueLeg_ok hmax hmid hnd (hd.covered leg List.mem_cons_self)
    have hdist := List.nodup_cons.1 hd.distinct
    -- the entry changed is not one that a later leg draws on
    have hother : ∀ l ∈ legs, mid.set[l.index]? = acc.set[l.index]? := fun l hl =>
      hkeep _ fun heq => hdist.1 (List.mem_map.2 ⟨l, hl, heq⟩)
    obtain ⟨used, hu, hund, hlen, hmem, hs, hbt, hpt, hmsg⟩ := ih _ _ h (by rwa [haddr])
      ⟨hdist.2, fun l hl => by
        obtain ⟨e, he, hrest⟩ := hd.covered l (List.mem_cons_of_mem _ hl)
        exact ⟨e, (hother l hl).trans he, hrest⟩⟩
    -- the addresses differ, so a later leg on the same address would be on the same entry
    have hnew : v.address ∉ used := by
      intro hin
      obtain ⟨l, hl, e, he, hea⟩ := hmem _ hin
      rw [hother l hl] at he
      have hi : l.index = leg.index := by
        refine (List.getElem?_inj ?_ hnd).1 ?_
        · simpa using (List.getElem?_eq_some_iff.1 he).1
        · simp [he, hv, hea]
      exact hdist.1 (List.mem_map.2 ⟨l, hl, hi⟩)
    refine ⟨v.address :: used, ?_, List.nodup_cons.2 ⟨hnew, hund⟩, by simp [hlen], ?_, ?_, ?_, ?_, ?_⟩
    · rw [hu, hused]; simp
    · intro a ha
      rcases List.mem_cons.1 ha with rfl | ha
      · exact ⟨leg, List.mem_cons_self, v, hv, rfl⟩
      · obtain ⟨l, hl, e, he, hea⟩ := hmem a ha
        exact ⟨l, List.mem_cons_of_mem _ hl, e, (hother l hl) ▸ he, hea⟩
    · rw [hs, hslots, List.map_map]
      refine List.map_congr_left fun s _ => ?_
      simp only [Function.comp_apply, taken, List.mem_cons]
      by_cases hsv : s.1 = v.address
      · simp [hsv, hnew]
      · simp [hsv]
    · simp only [List.map_cons, List.sum_cons]
      omega
    · exact hpt.trans hp
    · rw [hmsg, hmsgs]; simp

theorem slots_releaseSlot (address : String) : ∀ set : List ValidatorEntry,
    (set.map (·.address)).Nodup → slots (releaseSlot set address) =
      (slots set).map (released [address]) := by
  intro set
  induction set with
  | nil => intro _; rfl
  | cons u set ih =>
    intro hnd
    rw [List.map_cons, List.nodup_cons] at hnd
    unfold releaseSlot
    split
    · rename_i hu
      have hrest : ∀ s ∈ slots set, released [address] s = s := by
        intro s hs
        obtain ⟨e, he, rfl⟩ := List.mem_map.1 hs
        have : e.address ≠ address := fun heq =>
          hnd.1 (by rw [hu, ← heq]; exact List.mem_map_of_mem he)
        simp [released, slot, Ne.symm this]
      simp only [slots, List.map_cons] at hrest ⊢
      rw [List.map_congr_left hrest]
      simp [released, slot, hu]
    · rename_i hu
      have := ih hnd.2
      simp only [slots, List.map_cons] at this ⊢
      rw [this]
      simp [released, slot, Ne.symm hu]

/-- Giving slots back changes nothing but counters. -/
theorem map_releaseSlot {α : Type*} {f : ValidatorEntry → α}
    (hf : ∀ (v : ValidatorEntry) n, f { v with activeUnbondEntries := n } = f v) (address : String) :
    ∀ set : List ValidatorEntry, (releaseSlot set address).map f = set.map f := by
  intro set
  induction set with
  | nil => rfl
  | cons v set ih =>
    unfold releaseSlot
    split
    · rw [List.map_cons, List.map_cons, hf]
    · rw [List.map_cons, List.map_cons, ih]

theorem map_release {α : Type*} {f : ValidatorEntry → α}
    (hf : ∀ (v : ValidatorEntry) n, f { v with activeUnbondEntries := n } = f v) :
    ∀ (mentions : List String) (set : List ValidatorEntry),
      (mentions.foldl releaseSlot set).map f = set.map f := by
  intro mentions
  induction mentions with
  | nil => intro set; rfl
  | cons a mentions ih => intro set; rw [List.foldl_cons, ih, map_releaseSlot hf]

/-- **Giving slots back** takes one off a counter for each mention of its validator. -/
theorem slots_release : ∀ (mentions : List String) (set : List ValidatorEntry),
    (set.map (·.address)).Nodup → slots (mentions.foldl releaseSlot set) =
      (slots set).map (released mentions) := by
  intro mentions
  induction mentions with
  | nil => intro set _; simp
  | cons a mentions ih =>
    intro set hnd
    have haddr : (releaseSlot set a).map (·.address) = set.map (·.address) :=
      map_releaseSlot (fun _ _ => rfl) a set
    rw [List.foldl_cons, ih _ (by rw [haddr]; exact hnd), slots_releaseSlot a set hnd, List.map_map]
    refine List.map_congr_left fun s _ => ?_
    simp only [Function.comp_apply, released, List.count_cons, List.count_nil]
    congr 1
    omega

/-- Giving slots back moves no stake and no rewards. -/
theorem total_release {f : ValidatorEntry → Uint128}
    (hf : ∀ (v : ValidatorEntry) n, f { v with activeUnbondEntries := n } = f v)
    (mentions : List String) (set : List ValidatorEntry) :
    total f (mentions.foldl releaseSlot set) = total f set :=
  congrArg List.sum (map_release (fun v n => congrArg Word.val (hf v n)) mentions set)

end LstCore
