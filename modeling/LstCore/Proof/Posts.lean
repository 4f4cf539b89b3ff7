import LstCore.Proof.Config
import LstCore.Proof.Weights

/-!
# The posts of the set

Who is in the set, at which weight and in which status, is what the manager last assigned.

* `applyWeights_eq`: an assignment, entry by entry: those in the set stay in place, and those
  that join come behind.
* `Posted`: the active weights are the whole, none above the limit, and whoever is not active has
  none; `applyWeights_posted`: an assignment leaves a set like that.
* `Reachable.posted`, `Reachable.cursor_lt`: every reachable set is like that, with the cursor in it.
-/

namespace LstCore

open Lib

variable {st st' : Storage} {set set' : List ValidatorEntry} {ws : List ValidatorInit} {maxBps : ℕ}

/-! ## An assignment -/

/-- The weight that an assignment gives an address. -/
def assigned (ws : List ValidatorInit) (a : String) : ℕ :=
  ((ws.find? fun w => w.address == a).map (·.weightBps)).getD 0

/-- The members of an assignment that are not in the set yet. -/
def joining (set : List ValidatorEntry) (ws : List ValidatorInit) : List ValidatorInit :=
  ws.filter fun w => w.address ∉ set.map (·.address)

theorem reweigh_weight (v : ValidatorEntry) :
    (Validators.reweigh ws v).weightBps = assigned ws v.address := by
  unfold Validators.reweigh assigned
  cases ws.find? fun w => w.address == v.address <;> rfl

theorem reweigh_active (v : ValidatorEntry) :
    (Validators.reweigh ws v).status = .active ↔ v.address ∈ ws.map (·.address) := by
  unfold Validators.reweigh
  split
  · rename_i w hw
    have hwa := List.find?_some hw
    rw [beq_iff_eq] at hwa
    exact iff_of_true rfl (List.mem_map.2 ⟨w, List.mem_of_find?_eq_some hw, hwa⟩)
  · rename_i hnone
    refine iff_of_false (by split <;> simp) fun hmem => ?_
    obtain ⟨w, hw, hwa⟩ := List.mem_map.1 hmem
    exact absurd (beq_iff_eq.2 hwa) (List.find?_eq_none.1 hnone w hw)

theorem assigned_of_not_mem {a : String} (h : a ∉ ws.map (·.address)) : assigned ws a = 0 := by
  unfold assigned
  rw [List.find?_eq_none.2 fun w hw => by simpa using fun he => h (List.mem_map.2 ⟨w, hw, he⟩)]
  rfl

theorem assigned_le (h : ∀ w ∈ ws, w.weightBps ≤ maxBps) (a : String) : assigned ws a ≤ maxBps := by
  unfold assigned
  cases hfind : ws.find? fun w => w.address == a with
  | none => exact Nat.zero_le _
  | some w => exact h w (List.mem_of_find?_eq_some hfind)

/-- **An assignment, entry by entry.** -/
theorem applyWeights_eq (set : List ValidatorEntry) (hnd : (ws.map (·.address)).Nodup) :
    Validators.applyWeights set ws =
      set.map (Validators.reweigh ws) ++ (joining set ws).map Validators.newEntry := by
  -- a member that has just joined is not met again
  have hfold : ∀ (l : List ValidatorInit), (l.map (·.address)).Nodup →
      ∀ base : List ValidatorEntry, l.foldl (fun set w =>
        if set.any (fun e => e.address == w.address) then set
        else set ++ [Validators.newEntry w]) base =
      base ++ (joining base l).map Validators.newEntry := by
    intro l
    induction l with
    | nil => simp [joining]
    | cons w l ih =>
      intro hnd base
      rw [List.map_cons, List.nodup_cons] at hnd
      rw [List.foldl_cons]
      by_cases hw : w.address ∈ base.map (·.address)
      · have hany : base.any (fun e => e.address == w.address) = true := by simpa using hw
        have hjoin : joining base (w :: l) = joining base l :=
          List.filter_cons_of_neg (by simpa using hw)
        rw [if_pos hany, ih hnd.2, hjoin]
      · have hany : ¬ base.any (fun e => e.address == w.address) = true := by simpa using hw
        have hjoin : joining base (w :: l) = w :: joining base l :=
          List.filter_cons_of_pos (by simpa using hw)
        have hrest : joining (base ++ [Validators.newEntry w]) l = joining base l := by
          refine List.filter_congr fun u hu => ?_
          have hne : u.address ≠ w.address := fun he => hnd.1 (he ▸ List.mem_map_of_mem hu)
          simp [Validators.newEntry, hne]
        rw [if_neg hany, ih hnd.2, hjoin, hrest, List.append_assoc]
        rfl
  unfold Validators.applyWeights
  rw [hfold ws hnd]
  have haddr : (set.map (Validators.reweigh ws)).map (·.address) = set.map (·.address) := by
    rw [List.map_map]
    exact List.map_congr_left fun v _ => congrArg Prod.fst (reweigh_slot ws v).1
  unfold joining
  rw [haddr]

/-- The weights of those in the set and of those that join are the weights assigned. -/
theorem sum_assigned {addrs : List String} (ha : addrs.Nodup) :
    ∀ {ws : List ValidatorInit}, (ws.map (·.address)).Nodup →
      (addrs.map (assigned ws)).sum + ((ws.filter fun w => w.address ∉ addrs).map (·.weightBps)).sum =
        (ws.map (·.weightBps)).sum := by
  intro ws
  induction ws with
  | nil => simp [show assigned [] = fun _ => 0 from rfl]
  | cons w ws ih =>
    intro hnd
    rw [List.map_cons, List.nodup_cons] at hnd
    have ih := ih hnd.2
    -- the first member gives its own weight to its address, which the others leave at zero
    have hother : ∀ a ∈ addrs, a ≠ w.address → assigned (w :: ws) a = assigned ws a := by
      intro a _ hne
      unfold assigned
      rw [List.find?_cons_of_neg (by simpa using hne.symm)]
    have hself : assigned (w :: ws) w.address = w.weightBps := by
      unfold assigned
      rw [List.find?_cons_of_pos (by simp)]
      rfl
    by_cases hw : w.address ∈ addrs
    · have hsum : (addrs.map (assigned (w :: ws))).sum = (addrs.map (assigned ws)).sum + w.weightBps := by
        have hperm := List.perm_cons_erase hw
        have hne : ∀ a ∈ addrs.erase w.address, a ≠ w.address := fun a h =>
          ((ha.mem_erase_iff).1 h).1
        rw [(hperm.map _).sum_eq, (hperm.map (assigned ws)).sum_eq, List.map_cons, List.map_cons,
          List.sum_cons, List.sum_cons, hself, assigned_of_not_mem hnd.1, List.map_congr_left
            fun a h => hother a (List.mem_of_mem_erase h) (hne a h)]
        omega
      rw [hsum, List.filter_cons_of_neg (by simpa using hw), List.map_cons, List.sum_cons]
      omega
    · rw [List.map_congr_left fun a h => hother a h fun he => hw (he ▸ h),
        List.filter_cons_of_pos (by simpa using hw), List.map_cons, List.map_cons, List.sum_cons,
        List.sum_cons]
      omega

/-! ## The posts -/

/-- Who is in the set, in order, at which weight and in which status. -/
def posts (set : List ValidatorEntry) : List (String × ℕ × ValidatorStatus) :=
  set.map fun v => (v.address, v.weightBps, v.status)

theorem fixed_posts : Fixed fun v => (v.address, v.weightBps, v.status) := fun _ _ _ _ => rfl

/-- The active weights are the whole, none is above the limit, whoever is not active has none,
and somebody is active. -/
structure Posted (maxBps : ℕ) (set : List ValidatorEntry) : Prop where
  whole : ((set.filter fun v => v.status = .active).map (·.weightBps)).sum = bpsDenom
  light : ∀ v ∈ set, v.weightBps ≤ maxBps
  idle : ∀ v ∈ set, v.status ≠ .active → v.weightBps = 0
  active : ∃ v ∈ set, v.status = .active

theorem exists_post (h : posts set' = posts set) {v : ValidatorEntry} (hv : v ∈ set') :
    ∃ u ∈ set, u.address = v.address ∧ u.weightBps = v.weightBps ∧ u.status = v.status := by
  have hmem : (v.address, v.weightBps, v.status) ∈ posts set := h ▸ List.mem_map_of_mem hv
  obtain ⟨u, hu, he⟩ := List.mem_map.1 hmem
  simp only [Prod.mk.injEq] at he
  exact ⟨u, hu, he⟩

theorem Posted.of_posts (h : Posted maxBps set) (hp : posts set' = posts set) : Posted maxBps set' where
  whole := by
    have hcol : ∀ s : List ValidatorEntry, ((s.filter fun v => v.status = .active).map (·.weightBps)) =
        ((posts s).filter fun p => p.2.2 = .active).map (·.2.1) := by
      intro s
      rw [posts, List.filter_map, List.map_map]
      rfl
    rw [hcol, hp, ← hcol]
    exact h.whole
  light v hv := by
    obtain ⟨u, hu, -, hw, -⟩ := exists_post hp hv
    exact hw ▸ h.light u hu
  idle v hv hs := by
    obtain ⟨u, hu, -, hw, hst⟩ := exists_post hp hv
    exact hw ▸ h.idle u hu (hst ▸ hs)
  active := by
    obtain ⟨v, hv, hs⟩ := h.active
    obtain ⟨u, hu, -, -, hst⟩ := exists_post hp.symm hv
    exact ⟨u, hu, hst.trans hs⟩

/-- With nothing at weight among the idle, the active weights are all the weights. -/
theorem sum_active (h : ∀ v ∈ set, v.status ≠ .active → v.weightBps = 0) :
    ((set.filter fun v => v.status = .active).map (·.weightBps)).sum = (set.map (·.weightBps)).sum := by
  induction set with
  | nil => rfl
  | cons v set ih =>
    have ih := ih fun u hu => h u (List.mem_cons_of_mem v hu)
    by_cases hv : v.status = .active
    · rw [List.filter_cons_of_pos (by simpa using hv), List.map_cons, List.map_cons, List.sum_cons,
        List.sum_cons, ih]
    · rw [List.filter_cons_of_neg (by simpa using hv), ih, List.map_cons, List.sum_cons,
        h v List.mem_cons_self hv, Nat.zero_add]

theorem validateManagedWeights_le {allowlist : List String}
    (h : Validators.validateManagedWeights ws allowlist maxBps = .ok ()) :
    ∀ w ∈ ws, w.weightBps ≤ maxBps := by
  unfold Validators.validateManagedWeights at h
  rw [bind_eq_ok] at h
  obtain ⟨_, -, h⟩ := h
  induction ws with
  | nil => simp
  | cons w ws ih =>
    rw [List.foldlM_cons, bind_eq_ok] at h
    obtain ⟨_, hw, h⟩ := h
    simp only [guard_eq_ok, not_lt] at hw
    exact List.forall_mem_cons.2 ⟨hw.2.1, ih h⟩

/-- **An assignment leaves a set that stake can be placed by.** -/
theorem applyWeights_posted {allowlist : List String} (hset : (set.map (·.address)).Nodup)
    (h : Validators.validateManagedWeights ws allowlist maxBps = .ok ()) :
    Posted maxBps (Validators.applyWeights set ws) := by
  have hval := (validateManagedWeights_mem h).1
  obtain ⟨hne, hnd⟩ := validateSet_nodup hval
  have hle := validateManagedWeights_le h
  have hidle : ∀ v ∈ Validators.applyWeights set ws, v.status ≠ .active → v.weightBps = 0 := by
    rw [applyWeights_eq set hnd]
    intro v hv hs
    rcases List.mem_append.1 hv with hv | hv
    · obtain ⟨u, -, rfl⟩ := List.mem_map.1 hv
      rw [reweigh_weight, assigned_of_not_mem (mt (reweigh_active u).2 hs)]
    · obtain ⟨w, -, rfl⟩ := List.mem_map.1 hv
      exact absurd rfl hs
  refine ⟨?_, ?_, hidle, ?_⟩
  · rw [sum_active hidle, applyWeights_eq set hnd, List.map_append, List.sum_append, List.map_map,
      List.map_map]
    have hsum := sum_assigned hset hnd
    rw [validateSet_sum hval, List.map_map] at hsum
    rw [← hsum]
    congr 2
    exact List.map_congr_left fun v _ => reweigh_weight v
  · rw [applyWeights_eq set hnd]
    intro v hv
    rcases List.mem_append.1 hv with hv | hv
    · obtain ⟨u, -, rfl⟩ := List.mem_map.1 hv
      rw [reweigh_weight]
      exact assigned_le hle _
    · obtain ⟨w, hw, rfl⟩ := List.mem_map.1 hv
      exact hle w (List.mem_of_mem_filter hw)
  · -- the first member of the assignment is active, wherever it stands
    obtain ⟨w, hw⟩ := List.exists_mem_of_ne_nil _ hne
    rw [applyWeights_eq set hnd]
    by_cases hin : w.address ∈ set.map (·.address)
    · obtain ⟨v, hv, hva⟩ := List.mem_map.1 hin
      exact ⟨_, List.mem_append_left _ (List.mem_map_of_mem hv),
        (reweigh_active v).2 (hva ▸ List.mem_map_of_mem hw)⟩
    · exact ⟨_, List.mem_append_right _ (List.mem_map_of_mem (List.mem_filter.2
        ⟨hw, by simpa using hin⟩)), rfl⟩

/-! ## Every call -/

/-- The weight limit is the one of the instantiation, within the code's own. -/
structure Manned (st : Storage) : Prop where
  posted : Posted st.config.limits.maxValidatorWeightBps st.validators
  limit : st.config.limits.maxValidatorWeightBps ≤ maxValidatorWeightBps
  cursor : st.syncCursor < st.validators.length

/-- A call that leaves the posts, the limit and the cursor alone. -/
theorem Manned.unmoved (h : Manned st) (hk : Unmoved st st')
    (hl : st'.config.limits = st.config.limits) : Manned st' where
  posted := hl ▸ h.posted.of_posts (hk.column fixed_posts)
  limit := hl ▸ h.limit
  cursor := by
    have hlen := congrArg List.length (hk.column fixed_posts)
    rw [List.length_map, List.length_map] at hlen
    rw [hk.cursor, hlen]
    exact h.cursor

/-- **Every call keeps the set manned.** -/
theorem Manned.step {e : Call × Response} (h : Manned st) (hB : Booked st) (hS : Slotted st)
    (hs : Step st e st') : Manned st' := by
  obtain ⟨call, resp⟩ := e
  cases call with
  | migrate =>
    obtain ⟨rfl, -⟩ := migrate_ok hs
    exact ⟨h.posted, h.limit, h.cursor⟩
  | execute deps env info msg =>
    have he : execute deps env info msg st = .ok (st', resp) := hs
    have hlimits := (execute_config hB he).limits
    have hpos : 0 < st.validators.length := (Nat.zero_le _).trans_lt h.cursor
    cases msg with
    | sync limit =>
      obtain ⟨s, rfl, -⟩ := executeSync_ok he
      refine ⟨h.posted.of_posts (s.map_next fixed_posts), h.limit, ?_⟩
      -- the page that reaches the end starts over
      have hlen := s.length_next
      show (if _ then 0 else s.stop) < (syncedSet deps env st s.stop).length
      split <;> omega
    | compound limit =>
      obtain ⟨c, rfl, -⟩ := executeCompound_ok he
      refine ⟨h.posted.of_posts (c.map_next fixed_posts), h.limit, ?_⟩
      have hlen := c.length_next
      show (if _ then 0 else c.stop) < c.set.length
      split <;> omega
    | manager m =>
      rcases executeManager_unmoved he with ⟨weights, -, hv, rfl⟩ | hk
      · have hnd := hS.distinct
        rw [addresses_eq] at hnd
        refine ⟨applyWeights_posted hnd hv, h.limit, ?_⟩
        show st.syncCursor < (Validators.applyWeights st.validators weights).length
        rw [applyWeights_eq _ (validateSet_nodup (validateManagedWeights_mem hv).1).2,
          List.length_append, List.length_map]
        exact h.cursor.trans_le (Nat.le_add_right _ _)
      · exact h.unmoved hk hlimits
    | _ => exact h.unmoved (execute_unmoved hB rfl he) hlimits

/-- A fresh set is the assignment it was instantiated with. -/
theorem Instantiated.manned (hi : Instantiated st) : Manned st := by
  obtain ⟨deps, env, info, msg, resp, hi⟩ := hi
  obtain ⟨config, hc, -, hlimits, -, -, rfl⟩ := instantiate_ok hi
  unfold checkInstantiate at hc
  simp only [bind_eq_ok, guard_eq_ok] at hc
  obtain ⟨_, -, _, hset, -, _, hval, _, hweights, -⟩ := hc
  obtain ⟨hne, hnd⟩ := validateSet_nodup hset
  -- the initial set is what the assignment makes of an empty one
  have heq : initialValidatorSet msg.validators = Validators.applyWeights [] msg.validators := by
    rw [applyWeights_eq [] hnd]
    simp [joining, initialValidatorSet]
  refine ⟨?_, ?_, ?_⟩
  · show Posted config.limits.maxValidatorWeightBps (initialValidatorSet msg.validators)
    rw [heq, hlimits]
    exact applyWeights_posted List.nodup_nil hweights
  · show config.limits.maxValidatorWeightBps ≤ _
    rw [hlimits]
    exact (validateLimits_ok hval).2
  · show 0 < (initialValidatorSet msg.validators).length
    rw [initialValidatorSet, List.length_map]
    exact List.length_pos_of_ne_nil hne

/-- **The set is manned in every reachable storage.** -/
theorem Reachable.manned (h : Reachable st) : Manned st := by
  refine (h.inv (P := fun st => Booked st ∧ Slotted st ∧ Manned st)
    (fun st hi => ⟨hi.booked, Reachable.slotted ⟨st, [], hi, .nil⟩, hi.manned⟩) ?_).2.2
  rintro st e st' ⟨hB, hS, hM⟩ hs
  exact ⟨(step_refines hB hs).1, step_slotted hS hB hs, hM.step hB hS hs⟩

end LstCore
