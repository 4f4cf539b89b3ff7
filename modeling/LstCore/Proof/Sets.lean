import LstCore.Spec.Chain

/-!
# What the operations do to the validator set

The sums over a set, the change of one entry, and the slots of a set: the address and
the entry counter of each validator. A re-read, a delegation and a redelegation move
stake but no slot; a weight change only appends entries with no slot in use.
-/

namespace LstCore

open Lib

variable {set set' : List ValidatorEntry} {deps : Deps} {i : ℕ} {v v' : ValidatorEntry}

/-- The sum of an amount over a set. -/
def total (f : ValidatorEntry → Uint128) (set : List ValidatorEntry) : ℕ :=
  (set.map fun v => (f v).val).sum

/-- The address and the counter of an entry. -/
def slot (v : ValidatorEntry) : String × ℕ := (v.address, v.activeUnbondEntries)

def slots (set : List ValidatorEntry) : List (String × ℕ) := set.map slot

/-- **A sum over the set is computed exactly when it fits.** -/
theorem sumOf_eq_ok {f : ValidatorEntry → Uint128} {s : Uint128} :
    sumOf f set = .ok s ↔ s.val = total f set := by
  have : ∀ (set : List ValidatorEntry) (a : Uint128),
      set.foldlM (fun acc v => add acc (f v)) a = .ok s ↔ s.val = a.val + total f set := by
    intro set
    induction set with
    | nil => intro a; rw [List.foldlM_nil, pure_eq_ok, eq_comm, Word.ext_iff]; simp [total]
    | cons v set ih =>
      intro a
      rw [List.foldlM_cons, bind_eq_ok]
      simp only [ih, add_eq_ok, total, List.map_cons, List.sum_cons]
      constructor
      · rintro ⟨b, hb, hs⟩; omega
      · intro hs
        have := s.isLt
        exact ⟨⟨a.val + (f v).val, by omega⟩, rfl, by simp only; omega⟩
  simpa [sumOf] using this set 0

@[simp] theorem totalBonded_eq_ok {s : Uint128} :
    Validators.totalBonded set = .ok s ↔ s.val = total (·.bonded) set := sumOf_eq_ok

/-- Changing one entry moves a sum by the new amount minus the old. -/
theorem total_set (f : ValidatorEntry → Uint128) (v' : ValidatorEntry) :
    ∀ {set : List ValidatorEntry} {i : ℕ}, set[i]? = some v →
    total f (set.set i v') + (f v).val = total f set + (f v').val := by
  intro set
  induction set with
  | nil => intro i h; simp at h
  | cons u set ih =>
    intro i h
    cases i with
    | zero => simp at h; subst h; simp [total]; omega
    | succ i =>
      have := ih (i := i) (by simpa using h)
      simp only [total, List.set_cons_succ, List.map_cons, List.sum_cons] at this ⊢
      omega

/-- An entry changed in other fields leaves a column of the set alone. -/
theorem map_set {α : Type*} {f : ValidatorEntry → α} (h : set[i]? = some v) (hf : f v' = f v) :
    (set.set i v').map f = set.map f := by
  rw [List.map_set, hf]
  have : (set.map f)[i]? = some (f v) := by simp [h]
  obtain ⟨hlt, he⟩ := List.getElem?_eq_some_iff.1 this
  rw [← he, List.set_getElem_self]

theorem slots_set (h : set[i]? = some v) (hs : slot v' = slot v) :
    slots (set.set i v') = slots set := map_set h hs

@[simp] theorem modifyEntry_eq_ok {f : ValidatorEntry → Exec ValidatorEntry} :
    modifyEntry set i f = .ok set' ↔
      ∃ v, set[i]? = some v ∧ ∃ v', f v = .ok v' ∧ set.set i v' = set' := by
  simp [modifyEntry]

/-! ## Re-reading -/

variable {contract : Addr} {denom : String}

/-- The stake the staking module reports. -/
def stakeAt (deps : Deps) (contract : Addr) (validator : String) : Uint128 :=
  ((delegationOf deps contract validator).map (·.amount.amount)).getD 0

/-- An entry re-read. -/
def readEntry (deps : Deps) (contract : Addr) (denom : String) (v : ValidatorEntry) :
    ValidatorEntry :=
  { v with
    bonded := stakeAt deps contract v.address
    pendingRewards := rewardsAt deps contract denom v.address }

/-- The staking module answers about every validator of the list. -/
def Readable (deps : Deps) (contract : Addr) (set : List ValidatorEntry) : Prop :=
  ∀ v ∈ set, ∃ d, deps.queryDelegation contract v.address = .ok d

theorem readDelegation_eq_ok : readDelegation deps contract denom v = .ok v' ↔
    (∃ d, deps.queryDelegation contract v.address = .ok d) ∧
      v' = readEntry deps contract denom v := by
  unfold readDelegation readEntry stakeAt rewardsAt delegationOf
  rcases deps.queryDelegation contract v.address with e | (_ | d) <;> simp [eq_comm]

/-- **A traversal of re-reads succeeds exactly when every delegation can be read.** -/
theorem mapM_read_eq_ok {l l' : List ValidatorEntry} :
    l.mapM (readDelegation deps contract denom) = .ok l' ↔
      Readable deps contract l ∧ l' = l.map (readEntry deps contract denom) := by
  rw [mapM_eq_ok]
  constructor
  · intro h
    induction h with
    | nil => exact ⟨by simp [Readable], rfl⟩
    | cons hv _ ih =>
      obtain ⟨hd, rfl⟩ := readDelegation_eq_ok.1 hv
      exact ⟨List.forall_mem_cons.2 ⟨hd, ih.1⟩, by rw [List.map_cons, ih.2]⟩
  · rintro ⟨h, rfl⟩
    rw [List.forall₂_map_right_iff]
    exact List.forall₂_same.2 fun v hv => readDelegation_eq_ok.2 ⟨h v hv, rfl⟩

@[simp] theorem slots_read (l : List ValidatorEntry) :
    slots (l.map (readEntry deps contract denom)) = slots l := by
  simp [slots, Function.comp_def, readEntry, slot]

/-! ## Pages -/

variable {cursor stop : ℕ} {page : List ValidatorEntry}

theorem take_append_pageOf (set : List ValidatorEntry) (h : cursor ≤ stop) :
    set.take cursor ++ pageOf cursor stop set ++ set.drop stop = set := by
  unfold pageOf
  have : set.take cursor = (set.take stop).take cursor := by rw [List.take_take, min_eq_left h]
  rw [this, List.take_append_drop, List.take_append_drop]

/-- A page changed in other fields leaves a column of the set alone. -/
theorem map_withPage {α : Type*} {f : ValidatorEntry → α}
    (h : page.map f = (pageOf cursor stop set).map f) :
    (withPage cursor stop set page).map f = set.map f := by
  unfold withPage
  split
  · rename_i hc
    conv_rhs => rw [← take_append_pageOf set hc]
    simp only [List.map_append, h]
  · rfl

theorem slots_withPage (h : slots page = slots (pageOf cursor stop set)) :
    slots (withPage cursor stop set page) = slots set := map_withPage h

theorem length_eq_of_slots (h : slots set' = slots set) : set'.length = set.length := by
  simpa [slots] using congrArg List.length h

/-- Replacing a page moves a sum by the new page minus the old. -/
theorem total_withPage {f : ValidatorEntry → Uint128} (hc : cursor ≤ stop) :
    total f (withPage cursor stop set page) + total f (pageOf cursor stop set) =
      total f set + total f page := by
  unfold withPage
  rw [if_pos hc]
  have := congrArg (total f) (take_append_pageOf set hc)
  simp only [total, List.map_append, List.sum_append] at this ⊢
  omega

/-- A page changed by `f` changes the places from the cursor to where it stops. -/
theorem getElem?_withPage {i : ℕ} (f : ValidatorEntry → ValidatorEntry) (hc : cursor ≤ stop) :
    (withPage cursor stop set ((pageOf cursor stop set).map f))[i]? =
      (set[i]?).map fun v => if cursor ≤ i ∧ i < stop then f v else v := by
  have hlen : ((set.take cursor) ++ (pageOf cursor stop set).map f).length =
      min stop set.length := by
    simp only [pageOf, List.length_append, List.length_map, List.length_drop, List.length_take]
    omega
  have hfront : (set.take cursor).length = min cursor set.length := List.length_take
  unfold withPage
  rw [if_pos hc]
  by_cases hn : set.length ≤ i
  · rw [List.getElem?_eq_none hn, List.getElem?_eq_none]
    · rfl
    · rw [List.length_append, hlen, List.length_drop]
      omega
  by_cases hbefore : i < cursor
  · rw [List.append_assoc, List.getElem?_append_left (by omega), List.getElem?_take_of_lt hbefore]
    simp [show ¬ cursor ≤ i by omega]
  by_cases hin : i < stop
  · rw [List.getElem?_append_left (by omega), List.getElem?_append_right (by omega), hfront,
      min_eq_left (by omega), List.getElem?_map, pageOf, List.getElem?_drop,
      show cursor + (i - cursor) = i by omega, List.getElem?_take_of_lt hin]
    simp [show cursor ≤ i by omega, hin]
  · rw [List.getElem?_append_right (by omega), hlen, min_eq_left (by omega), List.getElem?_drop,
      show stop + (i - stop) = i by omega]
    simp [hin]

/-! ## Harvesting -/

/-- An entry whose rewards are being taken. -/
def harvestEntry (deps : Deps) (contract : Addr) (v : ValidatorEntry) : ValidatorEntry :=
  { v with
    bonded := ((delegationOf deps contract v.address).map (·.amount.amount)).getD v.bonded
    pendingRewards := 0 }

/-- The rewards a page holds. -/
def rewardsOf (deps : Deps) (contract : Addr) (denom : String) (page : List ValidatorEntry) : ℕ :=
  (page.map fun v => (rewardsAt deps contract denom v.address).val).sum

/-- The withdrawals of a page: one for each validator with something to withdraw. -/
def withdrawals (deps : Deps) (contract : Addr) (denom : String) (page : List ValidatorEntry) :
    List CosmosMsg :=
  (page.filter fun v => rewardsAt deps contract denom v.address ≠ 0).map
    fun v => .withdrawDelegatorReward v.address

theorem harvestStep_ok {acc acc' : HarvestAcc}
    (h : harvestStep deps contract denom acc v = .ok acc') :
    (∃ d, deps.queryDelegation contract v.address = .ok d) ∧
      acc'.page = acc.page ++ [harvestEntry deps contract v] ∧
      acc'.messages = acc.messages ++ withdrawals deps contract denom [v] ∧
      acc'.harvested.val = acc.harvested.val + rewardsOf deps contract denom [v] := by
  unfold harvestStep at h
  rw [bind_eq_ok] at h
  obtain ⟨d, hd, h⟩ := h
  rw [liftStd_eq_ok] at hd
  have hdel : delegationOf deps contract v.address = d := by unfold delegationOf; rw [hd]
  simp only [harvestEntry, rewardsOf, withdrawals, rewardsAt, hdel, List.map_cons, List.map_nil,
    List.sum_cons, List.sum_nil, Nat.add_zero]
  -- a validator without rewards is re-read and not withdrawn from
  by_cases hr : (d.map (·.rewardsIn denom)).getD 0 = 0
  · simp only [hr, if_true, pure_eq_ok] at h
    subst h
    exact ⟨⟨d, hd⟩, rfl, by simp [hdel, hr], by simp [hr]⟩
  · simp only [hr, if_false, bind_eq_ok, pure_eq_ok, add_eq_ok] at h
    obtain ⟨s, hs, rfl⟩ := h
    exact ⟨⟨d, hd⟩, rfl, by simp [hdel, hr], hs⟩

/-- **What the harvest loop does to a page.** -/
theorem harvest_ok {acc : HarvestAcc}
    (h : page.foldlM (harvestStep deps contract denom) ⟨[], [], 0⟩ = .ok acc) :
    Readable deps contract page ∧ acc.page = page.map (harvestEntry deps contract) ∧
      acc.messages = withdrawals deps contract denom page ∧
      acc.harvested.val = rewardsOf deps contract denom page := by
  -- the loop adds to whatever it starts from
  have key : ∀ (page : List ValidatorEntry) (a acc : HarvestAcc),
      page.foldlM (harvestStep deps contract denom) a = .ok acc →
      Readable deps contract page ∧ acc.page = a.page ++ page.map (harvestEntry deps contract) ∧
        acc.messages = a.messages ++ withdrawals deps contract denom page ∧
        acc.harvested.val = a.harvested.val + rewardsOf deps contract denom page := by
    intro page
    induction page with
    | nil =>
      intro a acc h
      simp only [List.foldlM_nil, pure_eq_ok] at h
      subst h
      simp [Readable, withdrawals, rewardsOf]
    | cons v page ih =>
      intro a acc h
      rw [List.foldlM_cons, bind_eq_ok] at h
      obtain ⟨b, hb, h⟩ := h
      obtain ⟨hr, hp, hm, hh⟩ := harvestStep_ok hb
      obtain ⟨hr', hp', hm', hh'⟩ := ih b acc h
      refine ⟨List.forall_mem_cons.2 ⟨hr, hr'⟩, ?_, ?_, ?_⟩
      · rw [hp', hp]; simp
      · rw [hm', hm]
        simp only [withdrawals, List.append_assoc, ← List.map_append, ← List.filter_append]
        rfl
      · rw [hh', hh]; simp [rewardsOf, Nat.add_assoc]
  simpa using key page ⟨[], [], 0⟩ acc h

@[simp] theorem slots_harvest (l : List ValidatorEntry) :
    slots (l.map (harvestEntry deps contract)) = slots l := by
  simp [slots, Function.comp_def, harvestEntry, slot]

/-! ## Delegating -/

/-- Placing stake adds it to one entry. -/
theorem placeStake_eq_ok {amount : Uint128} {validator : String} :
    placeStake amount set = .ok (set', validator) ↔
      ∃ i v b, Validators.selectForDelegation set amount = .ok i ∧ set[i]? = some v ∧
        b.val = v.bonded.val + amount.val ∧ set' = set.set i { v with bonded := b } ∧
        validator = v.address := by
  unfold placeStake
  simp only [bind_eq_ok, modifyEntry_eq_ok, pure_eq_ok, add_eq_ok, orPanic_eq_ok, Prod.mk.injEq]
  constructor
  · rintro ⟨i, hi, _, ⟨v, hv, _, ⟨b, hb, rfl⟩, rfl⟩, e, he, rfl, rfl⟩
    obtain ⟨hlt, -⟩ := List.getElem?_eq_some_iff.1 hv
    rw [List.getElem?_set_self hlt] at he
    cases he
    exact ⟨i, v, b, hi, hv, hb, rfl, rfl⟩
  · rintro ⟨i, v, b, hi, hv, hb, rfl, rfl⟩
    obtain ⟨hlt, -⟩ := List.getElem?_eq_some_iff.1 hv
    exact ⟨i, hi, _, ⟨v, hv, _, ⟨b, hb, rfl⟩, rfl⟩, { v with bonded := b },
      List.getElem?_set_self hlt, rfl, rfl⟩

/-- Placing stake changes nothing but stake. -/
theorem map_placeStake {α : Type*} {f : ValidatorEntry → α} {amount : Uint128} {validator : String}
    (hf : ∀ (v : ValidatorEntry) b, f { v with bonded := b } = f v)
    (h : placeStake amount set = .ok (set', validator)) : set'.map f = set.map f := by
  obtain ⟨i, v, b, -, hv, -, rfl, -⟩ := placeStake_eq_ok.1 h
  exact map_set hv (hf v b)

/-- **What placing an amount does to each entry**: the one it is delegated to grows by it. -/
theorem placeStake_forall₂ {amount : Uint128} {validator : String}
    (h : placeStake amount set = .ok (set', validator)) (hnd : (set.map (·.address)).Nodup) :
    List.Forall₂ (fun v v' => v'.address = v.address ∧
      v'.bonded.val = v.bonded.val + if v.address = validator then amount.val else 0) set set' := by
  obtain ⟨i, u, b, -, hu, hb, rfl, rfl⟩ := placeStake_eq_ok.1 h
  obtain ⟨hi, rfl⟩ := List.getElem?_eq_some_iff.1 hu
  refine List.forall₂_iff_get.2 ⟨by simp, fun j hj hj' => ?_⟩
  simp only [List.get_eq_getElem, List.getElem_set]
  by_cases hij : i = j
  · subst hij
    rw [if_pos rfl, if_pos rfl]
    exact ⟨rfl, hb⟩
  · -- nobody else has the address of whoever was picked
    have hne : set[j].address ≠ set[i].address := by
      intro he
      have hi' : i < (set.map (·.address)).length := by rwa [List.length_map]
      have hj' : j < (set.map (·.address)).length := by rwa [List.length_map]
      have heq : (set.map (·.address)).get ⟨i, hi'⟩ = (set.map (·.address)).get ⟨j, hj'⟩ := by
        simpa using he.symm
      exact hij (congrArg Fin.val (List.nodup_iff_injective_get.1 hnd heq))
    rw [if_neg hij, if_neg hne]
    exact ⟨rfl, rfl⟩

theorem slots_placeStake {amount : Uint128} {validator : String}
    (h : placeStake amount set = .ok (set', validator)) : slots set' = slots set :=
  map_placeStake (fun _ _ => rfl) h

theorem total_placeStake {amount : Uint128} {validator : String}
    (h : placeStake amount set = .ok (set', validator)) :
    total (·.bonded) set' = total (·.bonded) set + amount.val ∧
      total (·.pendingRewards) set' = total (·.pendingRewards) set := by
  obtain ⟨i, v, b, -, hv, hb, rfl, -⟩ := placeStake_eq_ok.1 h
  have h1 := total_set (·.bonded) { v with bonded := b } hv
  have h2 := total_set (·.pendingRewards) { v with bonded := b } hv
  simp only at h1 h2
  constructor <;> omega

end LstCore
