import LstCore.Lib.Run
import LstCore.Proof.Mature

/-!
# The operation that marks windows matured

* `Booked`: the queue is well formed, its claim ledger holds, and the three cached
  liabilities are what the windows say.
* `matureDueWindows_ok`: what marking the due windows did (`Marking`).
* `matureDueWindows_total`: on a booked storage it succeeds whenever the bank answers.
* `Marking.run`: it is a run of returns.
-/

namespace LstCore

open Lib

variable {deps : Deps} {env : Env} {st st' : Storage} {ws : Keymap ℕ UnbondWindow} {q : Queue}
  {id now limit : ℕ} {w : UnbondWindow} {rets : List (ℕ × Uint128)} {balance : Uint128}

/-- **The liability ledger.** -/
structure Booked (st : Storage) : Prop where
  shape : st.queue.Shape
  claims : st.queue.Claims
  owedOpen : st.totals.scrtOwedOpen.val = st.queue.openOwed
  owedUnbonding : st.totals.scrtOwedUnbonding.val = st.queue.unbondingOwed
  owedMatured : st.totals.scrtOwedMatured.val = st.queue.maturedOwed

/-! ## Sums over the active list -/

theorem Queue.Shape.nodup (h : q.Shape) : q.activeWindows.Nodup :=
  h.sorted.imp Nat.ne_of_lt

theorem Queue.Shape.lookup_active (h : q.Shape) (hid : id ∈ q.activeWindows) :
    ∃ w, q.windows.lookup id = some w :=
  let ⟨w, hw, _⟩ := (h.active id).1 hid
  ⟨w, hw⟩

/-- What the matured windows still owe is a sum over the active list. -/
theorem maturedOwed_eq_sum (h : q.Shape) : q.maturedOwed =
    (q.activeWindows.map fun id => (q.windows.lookup id).elim 0 Queue.stillDue).sum := by
  refine Keymap.total_eq_sum (f := fun _ w => Queue.stillDue w) h.nodup fun id w hw hne => ?_
  refine (h.active id).2 ⟨w, hw, .inr ?_⟩
  by_contra hs
  exact hne (by simp [Queue.stillDue, hs])

/-- The due windows owe at most what the windows in flight owe. -/
theorem sum_due_le (h : q.Shape) (now : ℕ) :
    ((q.activeWindows.filter fun id => dueIn q.windows now id).map (owedIn q.windows)).sum ≤
      q.unbondingOwed := by
  have hfl : ∀ id ∈ q.activeWindows.filter (fun id => dueIn q.windows now id),
      owedIn q.windows id = (q.windows.lookup id).elim 0 Queue.inFlight := by
    intro id hid
    obtain ⟨w, hw, hs, -⟩ := dueIn_iff.1 (List.mem_filter.1 hid).2
    rw [owedIn_eq hw, hw, Option.elim_some, Queue.inFlight, if_pos hs]
  rw [List.map_congr_left hfl]
  exact Keymap.sum_le_total (f := fun _ w => Queue.inFlight w) (h.nodup.sublist List.filter_sublist)

/-- The money spoken for is summed up exactly when it fits. -/
theorem spokenForBy_eq_ok {s : Uint128} {ids : List ℕ}
    (hex : ∀ id ∈ ids, ∃ w, ws.lookup id = some w) : spokenForBy ws ids = .ok s ↔
      s.val = (ids.map fun id => (ws.lookup id).elim 0 Queue.stillDue).sum := by
  have key : ∀ (ids : List ℕ) (a : Uint128), (∀ id ∈ ids, ∃ w, ws.lookup id = some w) →
      (ids.foldlM (fun acc id => do
        let w ← loadWindow ws id
        if w.state = .matured then add acc w.outstanding else pure acc) a = Except.ok s ↔
      s.val = a.val + (ids.map fun id => (ws.lookup id).elim 0 Queue.stillDue).sum) := by
    -- the running sum may start anywhere
    intro ids
    induction ids with
    | nil => intro a _; rw [List.foldlM_nil, pure_eq_ok, eq_comm, Word.ext_iff]; simp
    | cons id ids ih =>
      intro a hex
      obtain ⟨w, hw⟩ := hex id List.mem_cons_self
      have ih' := fun a => ih a fun i hi => hex i (List.mem_cons_of_mem _ hi)
      have hload : loadWindow ws id = .ok w := by rw [loadWindow, orErr_eq_ok, hw]
      rw [List.foldlM_cons, bind_eq_ok, List.map_cons, List.sum_cons, hw, Option.elim_some, hload]
      simp only [ok_bind, ih']
      by_cases hs : w.state = .matured
      · simp only [hs, if_true, add_eq_ok, Queue.stillDue]
        constructor
        · rintro ⟨b, hb, h⟩; omega
        · intro h
          have := s.isLt
          exact ⟨⟨a.val + w.outstanding.val, by omega⟩, rfl, by simp only; omega⟩
      · simp only [hs, if_false, pure_eq_ok, exists_eq_left', Queue.stillDue, Nat.zero_add]
  unfold spokenForBy
  rw [key ids 0 hex, Word.val_zero, Nat.zero_add]

theorem Booked.spokenFor (h : Booked st) :
    spokenForBy st.windows st.activeWindows = .ok st.totals.scrtOwedMatured := by
  have hS := h.shape
  refine (spokenForBy_eq_ok fun id hid => hS.lookup_active hid).2 ?_
  rw [h.owedMatured]
  exact maturedOwed_eq_sum hS

/-! ## The operation -/

/-- What marking windows matured against a balance did: the windows taken, in order, and
what each got. -/
structure Marking (now limit : ℕ) (balance : Uint128) (st st' : Storage)
    (rets : List (ℕ × Uint128)) : Prop where
  due : rets.map (·.1) =
    (st.activeWindows.filter fun id => dueIn st.windows now id).take (max limit 1)
  amounts : rets.map (·.2.val) =
    pour (balance.val - st.totals.scrtOwedMatured.val) ((rets.map (·.1)).map (owedIn st.windows))
  owedUnbonding : st'.totals.scrtOwedUnbonding.val =
    st.totals.scrtOwedUnbonding.val - ((rets.map (·.1)).map (owedIn st.windows)).sum
  owedMatured : st'.totals.scrtOwedMatured.val =
    st.totals.scrtOwedMatured.val + (rets.map (·.2.val)).sum
  frame : st' = { st with
    windows := returnAll st.windows rets
    validators := ((rets.map (·.1)).flatMap (usedIn st.windows)).foldl releaseSlot st.validators
    totals := { st.totals with
      scrtOwedUnbonding := st'.totals.scrtOwedUnbonding
      scrtOwedMatured := st'.totals.scrtOwedMatured } }

/-- **What a successful marking did.** -/
theorem matureDueWindows_ok {ids : List ℕ} (hB : Booked st)
    (h : matureDueWindows deps env limit st = .ok (st', ids)) :
    ∃ balance rets,
      deps.queryBalance env.contract.address st.config.bondedDenom = .ok balance ∧
      Marking env.time limit balance st st' rets ∧ ids = rets.map (·.1) := by
  unfold matureDueWindows at h
  simp only [bind_eq_ok, liftStd_eq_ok] at h
  obtain ⟨balance, hbal, s, hs, acc, hacc, h⟩ := h
  rw [hB.spokenFor, Except.ok.injEq] at hs
  subst hs
  obtain ⟨rets, hl⟩ := matureLoop_ok hacc hB.shape.nodup fun id hid => hB.shape.lookup_active hid
  have hm := hl.matured
  have hw := hl.windows
  have hr := hl.release
  simp only [List.nil_append] at hm hr
  refine ⟨balance, rets, hbal, ?_⟩
  -- a loop that marked nothing writes nothing
  split at h
  · rename_i hnil
    rw [pure_eq_ok, Prod.mk.injEq] at h
    obtain ⟨rfl, rfl⟩ := h
    have hz : rets = [] := by simpa using hm.symm.trans hnil
    subst hz
    exact ⟨⟨hl.due, by simp [pour], by simp, by simp, rfl⟩, rfl⟩
  · simp only [bind_eq_ok, add_eq_ok, pure_eq_ok, Prod.mk.injEq] at h
    obtain ⟨om, hom, rfl, rfl⟩ := h
    have hp := hl.promised
    have hre := hl.realised
    simp only [Word.val_zero, Nat.zero_add] at hp hre
    refine ⟨⟨hl.due, hl.amounts, ?_, ?_, ?_⟩, hm⟩
    · simp only [Word.val_satSub, hp]
    · simp only [hom, hre]
    · simp only [hw, hr]

/-- **Marking always succeeds** on a booked storage, whenever the bank answers. -/
theorem matureDueWindows_total (hB : Booked st) (limit : ℕ)
    (hb : deps.queryBalance env.contract.address st.config.bondedDenom = .ok balance) :
    ∃ st' ids, matureDueWindows deps env limit st = .ok (st', ids) := by
  have hex : ∀ id ∈ st.activeWindows, ∃ w, st.windows.lookup id = some w := fun id hid =>
    hB.shape.lookup_active hid
  have hle := sum_due_le hB.shape env.time
  have hun := hB.owedUnbonding
  have hlt := st.totals.scrtOwedUnbonding.isLt
  obtain ⟨acc, hacc⟩ := matureLoop_total env.time (max limit 1) balance st.activeWindows
    ⟨st.windows, st.totals.scrtOwedMatured, [], [], 0, 0⟩ hB.shape.nodup hex (by
      simp only [Word.val_zero, Nat.zero_add]
      exact lt_of_le_of_lt hle (by rw [← hun]; exact hlt)) (Nat.le_refl _)
  obtain ⟨rets, hl⟩ := matureLoop_ok hacc hB.shape.nodup hex
  unfold matureDueWindows
  rw [hb, show liftStd (Except.ok balance) = .ok balance from rfl, ok_bind, hB.spokenFor, ok_bind,
    hacc, ok_bind]
  split
  · exact ⟨_, _, rfl⟩
  · -- what came back fits on top of what is spoken for: it is paid out of the balance
    have hsum := hl.realised
    rw [hl.amounts, sum_pour] at hsum
    simp only [Word.val_zero, Nat.zero_add] at hsum
    have hbal := balance.isLt
    have hsp := st.totals.scrtOwedMatured.isLt
    obtain ⟨om, hom⟩ := Word.exists_add? (a := st.totals.scrtOwedMatured) (b := acc.realisedTotal)
      (by omega)
    rw [Word.add?_eq_some] at hom
    rw [add_eq_ok.2 hom, ok_bind]
    exact ⟨_, _, rfl⟩

namespace Marking

variable (hM : Marking now limit balance st st' rets)

include hM

theorem mem_due {ret : ℕ × Uint128} (hr : ret ∈ rets) :
    ret.1 ∈ st.activeWindows ∧ dueIn st.windows now ret.1 = true := by
  have := List.mem_map_of_mem (f := Prod.fst) hr
  rw [hM.due] at this
  exact List.mem_filter.1 (List.mem_of_mem_take this)

theorem nodup (hB : Booked st) : (rets.map (·.1)).Nodup := by
  rw [hM.due]
  exact (hB.shape.nodup.sublist List.filter_sublist).sublist (List.take_sublist _ _)

theorem le_owed : ∀ ret ∈ rets, ret.2.val ≤ owedIn st.windows ret.1 := by
  have h := pour_le ((rets.map (·.1)).map (owedIn st.windows))
    (balance.val - st.totals.scrtOwedMatured.val)
  rw [← hM.amounts, List.map_map, List.forall₂_map_left_iff, List.forall₂_map_right_iff] at h
  exact List.forall₂_same.1 h

/-- Each window taken was in flight, due, and got at most what it owes. -/
theorem window {ret : ℕ × Uint128} (hr : ret ∈ rets) :
    ∃ w, st.windows.lookup ret.1 = some w ∧ w.state = .unbonding ∧ w.maturesAt ≤ now ∧
      ret.2 ≤ w.scrtOwed := by
  obtain ⟨w, hw, hs, hm⟩ := dueIn_iff.1 (hM.mem_due hr).2
  refine ⟨w, hw, hs, hm, ?_⟩
  rw [Word.le_def, ← owedIn_eq hw]
  exact hM.le_owed ret hr

/-- **The windows together get the unclaimed part of the balance, or all they are owed.** -/
theorem sum_amounts : (rets.map (·.2.val)).sum =
    min (balance.val - st.totals.scrtOwedMatured.val)
      ((rets.map (·.1)).map (owedIn st.windows)).sum := by
  rw [hM.amounts, sum_pour]

theorem lookup_of_mem (hB : Booked st) {ret : ℕ × Uint128} (hr : ret ∈ rets) :
    ∃ w, st.windows.lookup ret.1 = some w ∧ w.state = .unbonding ∧ w.maturesAt ≤ now ∧
      ret.2 ≤ w.scrtOwed ∧ st'.windows.lookup ret.1 = some (w.returned ret.2) := by
  obtain ⟨w, hw, hs, hm, hle⟩ := hM.window hr
  refine ⟨w, hw, hs, hm, hle, ?_⟩
  rw [hM.frame]
  exact lookup_returnAll_of_mem (hM.nodup hB) hr hw

theorem lookup_of_not_mem (hid : id ∉ rets.map (·.1)) :
    st'.windows.lookup id = st.windows.lookup id := by
  rw [hM.frame]
  exact lookup_returnAll_of_not_mem hid

theorem queue_eq : st'.queue = { st.queue with windows := returnAll st.windows rets } := by
  rw [hM.frame]; rfl

end Marking

/-! ## The returns as moves -/

/-- Returns of different windows move a sum over the windows by the returned ones minus
those in flight. -/
theorem total_returnAll (f : ℕ → UnbondWindow → ℕ) : ∀ {rets : List (ℕ × Uint128)}
    {ws : Keymap ℕ UnbondWindow}, (rets.map (·.1)).Nodup →
    (∀ ret ∈ rets, ∃ w, ws.lookup ret.1 = some w) →
    (returnAll ws rets).total f +
        (rets.map fun ret => (ws.lookup ret.1).elim 0 (f ret.1)).sum =
      ws.total f +
        (rets.map fun ret => (ws.lookup ret.1).elim 0 fun w => f ret.1 (w.returned ret.2)).sum := by
  intro rets
  induction rets with
  | nil => intro ws _ _; simp [returnAll]
  | cons ret rets ih =>
    intro ws hnd hall
    obtain ⟨id, r⟩ := ret
    obtain ⟨hn, hnd⟩ := List.nodup_cons.1 hnd
    obtain ⟨w, hw⟩ : ∃ w, ws.lookup id = some w := hall _ List.mem_cons_self
    -- the windows of the later returns read as before the first one
    have hsame : ∀ ret ∈ rets, (ws.insert id (w.returned r)).lookup ret.1 = ws.lookup ret.1 :=
      fun ret hret => AList.lookup_insert_ne fun he => hn (List.mem_map.2 ⟨ret, hret, he⟩)
    have hcong : ∀ g : ℕ × Uint128 → Option UnbondWindow → ℕ,
        (rets.map fun ret => g ret ((ws.insert id (w.returned r)).lookup ret.1)) =
          rets.map fun ret => g ret (ws.lookup ret.1) :=
      fun g => List.map_congr_left fun ret hret => by rw [hsame ret hret]
    have hrest := @ih (ws.insert id (w.returned r)) hnd fun ret hret => by
      rw [hsame ret hret]
      exact hall ret (List.mem_cons_of_mem _ hret)
    rw [hcong fun ret o => o.elim 0 (f ret.1),
      hcong fun ret o => o.elim 0 fun w => f ret.1 (w.returned ret.2)] at hrest
    have hput := Keymap.total_insert_old (f := f) (v := w.returned r) hw
    rw [returnAll_cons hw]
    simp only [List.map_cons, List.sum_cons, hw, Option.elim_some]
    omega

/-- Returns of different windows in flight are a run of moves. -/
theorem returnAll_run : ∀ {rets : List (ℕ × Uint128)} {q : Queue},
    (rets.map (·.1)).Nodup →
    (∀ ret ∈ rets, ∃ w, q.windows.lookup ret.1 = some w ∧ w.state = .unbonding ∧
      ret.2 ≤ w.scrtOwed) →
    Run Queue.Step q (rets.map fun ret => Move.mature ret.1 ret.2).reverse
      { q with windows := returnAll q.windows rets } := by
  intro rets
  induction rets with
  | nil => intro q _ _; exact .nil
  | cons ret rets ih =>
    intro q hnd hall
    obtain ⟨id, r⟩ := ret
    obtain ⟨hn, hnd⟩ := List.nodup_cons.1 hnd
    obtain ⟨w, hw, hs, hr⟩ := hall _ List.mem_cons_self
    have hstep : Queue.Step q (.mature id r) { q with windows := q.windows.insert id (w.returned r) } :=
      .mature hw hs hr
    have hrun := ih (q := { q with windows := q.windows.insert id (w.returned r) }) hnd
      fun ret hret => by
        obtain ⟨v, hv, hv'⟩ := hall ret (List.mem_cons_of_mem _ hret)
        exact ⟨v, (AList.lookup_insert_ne fun he => hn (List.mem_map.2 ⟨ret, hret, he⟩)).trans hv, hv'⟩
    rw [returnAll_cons hw, List.map_cons, List.reverse_cons]
    exact (Run.single hstep).trans hrun

namespace Marking

variable (hM : Marking now limit balance st st' rets) (hB : Booked st)

include hM hB

/-- **Marking windows matured is a run of returns.** -/
theorem run : Run Queue.Step st.queue (rets.map fun ret => Move.mature ret.1 ret.2).reverse st'.queue := by
  rw [hM.queue_eq]
  exact returnAll_run (hM.nodup hB) fun ret hret => by
    obtain ⟨w, hw, hs, -, hr⟩ := hM.window hret
    exact ⟨w, hw, hs, hr⟩

/-- A sum over the windows that counts only windows in flight drops by what the marked ones
counted for. -/
theorem total_drop (f : ℕ → UnbondWindow → ℕ)
    (h0 : ∀ id (w : UnbondWindow) r, f id (w.returned r) = 0) :
    st'.windows.total f + (rets.map fun ret => (st.windows.lookup ret.1).elim 0 (f ret.1)).sum =
      st.windows.total f := by
  have h := total_returnAll f (hM.nodup hB) fun ret hret => (hM.window hret).imp fun w hw => hw.1
  have hz : (rets.map fun ret => (st.windows.lookup ret.1).elim 0
      fun w => f ret.1 (w.returned ret.2)).sum = 0 := by
    rw [List.sum_eq_zero_iff]
    intro x hx
    obtain ⟨ret, -, rfl⟩ := List.mem_map.1 hx
    cases st.windows.lookup ret.1 <;> simp [h0]
  rw [hM.frame]
  dsimp only
  omega

/-- Marking takes the promises out of the windows in flight and adds what came back to what
the matured windows owe. -/
theorem owed : st'.queue.openOwed = st.queue.openOwed ∧
    st'.queue.unbondingOwed + ((rets.map (·.1)).map (owedIn st.windows)).sum = st.queue.unbondingOwed ∧
    st'.queue.maturedOwed = st.queue.maturedOwed + (rets.map (·.2.val)).sum := by
  have hopen : st.openWindow ∉ rets.map (·.1) := fun hmem => by
    obtain ⟨ret, hret, he⟩ := List.mem_map.1 hmem
    obtain ⟨w, hw, hs, -⟩ := hM.window hret
    exact hB.shape.ne_open (q := st.queue) hw (by simp [hs]) he
  refine ⟨?_, ?_, ?_⟩
  · have ho : st'.openWindow = st.openWindow := by rw [hM.frame]
    show (st'.windows.lookup st'.openWindow).elim 0 _ = (st.windows.lookup st.openWindow).elim 0 _
    rw [ho, hM.lookup_of_not_mem hopen]
  · have h := hM.total_drop hB (fun _ w => Queue.inFlight w) fun _ _ _ => rfl
    rw [List.map_map]
    rw [List.map_congr_left (g := fun ret : ℕ × Uint128 => owedIn st.windows ret.1)
      fun ret hret => by
        obtain ⟨w, hw, hs, -⟩ := hM.window hret
        simp [hw, owedIn, Queue.inFlight, hs]] at h
    exact h
  · have h := total_returnAll (fun _ w => Queue.stillDue w) (hM.nodup hB) fun ret hret =>
      (hM.window hret).imp fun w hw => hw.1
    have hz : (rets.map fun ret => (st.windows.lookup ret.1).elim 0 Queue.stillDue).sum = 0 := by
      rw [List.sum_eq_zero_iff]
      intro x hx
      obtain ⟨ret, hret, rfl⟩ := List.mem_map.1 hx
      obtain ⟨w, hw, hs, -⟩ := hM.window hret
      simp [hw, Queue.stillDue, hs]
    have hr : (rets.map fun ret => (st.windows.lookup ret.1).elim 0
        fun w => Queue.stillDue (w.returned ret.2)) = rets.map (·.2.val) :=
      List.map_congr_left fun ret hret => by
        obtain ⟨w, hw, hs, -⟩ := hM.window hret
        obtain ⟨-, hz⟩ := (hB.shape.ok _ _ hw).realised_none (.inr hs)
        simp [hw, Queue.stillDue, UnbondWindow.returned, UnbondWindow.outstanding,
          UnbondWindow.payable, Word.eq_zero_iff.1 hz]
    rw [hz, hr, Nat.add_zero] at h
    rw [hM.queue_eq]
    exact h

end Marking

end LstCore
