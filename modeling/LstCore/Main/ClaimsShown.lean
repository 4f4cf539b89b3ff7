import LstCore.Main.ClaimOrder
import LstCore.Proof.Queries

/-!
# What a claim shown is paid

A claim that is shown as unclaimed in a matured window is paid what it is shown with. Marking
the windows that have since fallen due touches none of these, so naming them collects exactly
the total shown, and afterwards they are shown as claimed (`shown_is_paid`).
-/

namespace LstCore

open Lib

variable {st st₁ st' : Storage} {u : Addr} {id : ℕ} {w : World} {answer : PendingClaims}
  {cl : UserClaim} {env : Env} {ids : List ℕ} {paid : Uint128} {hist : List Move}

/-! ## The answer -/

/-- The windows of the claims shown as unclaimed and matured. -/
def PendingClaims.ready (answer : PendingClaims) : List ℕ :=
  (answer.claims.filter (·.ready)).map (·.windowId)

theorem shown_eq_some (hB : Booked st) : st.shown u id = some cl ↔
    ∃ c v p, st.claims.lookup (u, id) = some c ∧ st.windows.lookup id = some v ∧
      p.val = worth v c ∧ cl = ⟨id, c.sharesBurned, p, v.maturesAt, v.state, c.claimed⟩ := by
  constructor
  · intro h
    rcases hc : st.claims.lookup (u, id) with _ | c
    · simp [Storage.shown, hc] at h
    rcases hv : st.windows.lookup id with _ | v
    · simp [Storage.shown, hc, hv] at h
    obtain ⟨p, hp, -, hs⟩ := hB.shown_eq hc hv
    rw [hs, Option.some.injEq] at h
    exact ⟨c, v, p, rfl, rfl, hp, h.symm⟩
  · rintro ⟨c, v, p, hc, hv, hp, rfl⟩
    obtain ⟨p', hp', -, hs⟩ := hB.shown_eq hc hv
    rw [hs, Word.ext (hp.trans hp'.symm)]

/-- Every claim of the account is shown once, under the id of its window. -/
theorem mem_shown (hB : Booked st) (hq : queryPendingClaims u st = .ok answer) :
    cl ∈ answer.claims ↔ st.shown u cl.windowId = some cl := by
  rw [((queryPendingClaims_eq_ok hB).1 hq).1, List.mem_insertionSort, List.mem_filterMap]
  constructor
  · rintro ⟨id, -, hs⟩
    obtain ⟨c, v, p, -, -, -, rfl⟩ := (shown_eq_some hB).1 hs
    exact hs
  · intro hs
    obtain ⟨c, v, p, hc, -⟩ := (shown_eq_some hB).1 hs
    exact ⟨_, hB.claims.mem_index hc, hs⟩

/-- The windows shown as ready are those with an unpaid claim that have matured. -/
theorem mem_ready (hB : Booked st) (hq : queryPendingClaims u st = .ok answer) :
    id ∈ answer.ready ↔ ∃ c v, st.claims.lookup (u, id) = some c ∧ c.claimed = false ∧
      st.windows.lookup id = some v ∧ v.state = .matured := by
  unfold PendingClaims.ready
  simp only [List.mem_map, List.mem_filter, mem_shown hB hq, UserClaim.ready, Bool.and_eq_true,
    Bool.not_eq_true', decide_eq_true_eq]
  constructor
  · rintro ⟨cl, ⟨hs, hu, hm⟩, rfl⟩
    obtain ⟨c, v, p, hc, hv, -, hcl⟩ := (shown_eq_some hB).1 hs
    rw [hcl] at hu hm
    exact ⟨c, v, hc, hu, hv, hm⟩
  · rintro ⟨c, v, hc, hu, hv, hm⟩
    obtain ⟨p, hp, -, hs⟩ := hB.shown_eq hc hv
    exact ⟨⟨id, c.sharesBurned, p, v.maturesAt, v.state, c.claimed⟩, ⟨hs, hu, hm⟩, rfl⟩

/-- What is shown as due is what is due. -/
theorem due_shown (hB : Booked st) : (st.shown u id).elim 0 (·.due) = st.queue.dueTo u id := by
  rcases hc : st.claims.lookup (u, id) with _ | c
  · simp [Storage.shown, Queue.dueTo, Storage.queue, hc]
  rcases hv : st.windows.lookup id with _ | v
  · simp [Storage.shown, Queue.dueTo, Storage.queue, hc, hv]
  obtain ⟨p, hp, -, hs⟩ := hB.shown_eq hc hv
  rw [hs]
  simp [UserClaim.due, UserClaim.ready, Queue.dueTo, Storage.queue, hc, hv, hp]

/-- **The total shown** is what the windows shown as ready have due. -/
theorem total_shown (hB : Booked st) (hq : queryPendingClaims u st = .ok answer) :
    answer.totalClaimableNow.val = ∑ id ∈ answer.ready.toFinset, st.queue.dueTo u id := by
  have hnd : (st.claimIndex u).Nodup := hB.claims.index_nodup u
  have hsum := ((queryPendingClaims_eq_ok hB).1 hq).2.2
  rw [sum_shown, List.map_congr_left fun id _ => due_shown hB, ← List.sum_toFinset _ hnd] at hsum
  rw [hsum]
  refine (Finset.sum_subset (fun id hid => ?_) fun id _ hid => ?_).symm
  · obtain ⟨c, v, hc, -⟩ := (mem_ready hB hq).1 (List.mem_toFinset.1 hid)
    exact List.mem_toFinset.2 (hB.claims.mem_index hc)
  · -- what is not ready has nothing due
    by_contra hne
    refine hid (List.mem_toFinset.2 ((mem_ready hB hq).2 ?_))
    unfold Queue.dueTo at hne
    split at hne
    · rename_i c v hc hv
      split at hne
      · rename_i h
        exact ⟨c, v, hc, h.1, hv, h.2⟩
      · exact absurd rfl hne
    · exact absurd rfl hne

/-! ## What stays to be paid -/

/-- What an unpaid claim is worth, whatever state its window is in. -/
def Queue.unpaid (q : Queue) (u : Addr) (id : ℕ) : ℕ :=
  match q.claims.lookup (u, id), q.windows.lookup id with
  | some c, some w => if c.claimed = false then worth w c else 0
  | _, _ => 0

theorem open_shown (hB : Booked st) : (st.shown u id).elim 0 (·.open) = st.queue.unpaid u id := by
  rcases hc : st.claims.lookup (u, id) with _ | c
  · simp [Storage.shown, Queue.unpaid, Storage.queue, hc]
  rcases hv : st.windows.lookup id with _ | v
  · simp [Storage.shown, Queue.unpaid, Storage.queue, hc, hv]
  obtain ⟨p, hp, -, hs⟩ := hB.shown_eq hc hv
  rw [hs]
  simp [UserClaim.open, Queue.unpaid, Storage.queue, hc, hv, hp]

theorem Queue.unpaid_eq {q : Queue} {c : ClaimRecord} {v : UnbondWindow}
    (hc : q.claims.lookup (u, id) = some c) (hv : q.windows.lookup id = some v) :
    q.unpaid u id = if c.claimed = false then worth v c else 0 := by
  unfold unpaid
  rw [hc, hv]

/-- A window that comes back pays each claim no more than it was promised. -/
theorem Marking.unpaid_le {now limit : ℕ} {balance : Uint128} {rets : List (ℕ × Uint128)}
    (hB : Booked st) (hM : Marking now limit balance st st₁ rets) (u : Addr) (id : ℕ) :
    st₁.queue.unpaid u id ≤ st.queue.unpaid u id := by
  have hcl : st₁.queue.claims = st.queue.claims := by rw [hM.queue_eq]
  by_cases hid : id ∈ rets.map (·.1)
  · obtain ⟨ret, hret, rfl⟩ := List.mem_map.1 hid
    obtain ⟨v, hv, hs, -, hle, hv₁⟩ := hM.lookup_of_mem hB hret
    rcases hc : st.queue.claims.lookup (u, ret.1) with _ | c
    · simp [Queue.unpaid, hcl, hc]
    rw [Queue.unpaid_eq hc hv, Queue.unpaid_eq (hcl ▸ hc) hv₁]
    have hok : v.OK := hB.shape.ok _ v hv
    have hnone := (hok.realised_none (.inr hs)).1
    have hfull : worth v c = c.scrtOwed.val := by
      rw [worth, UnbondWindow.payable, hnone, Option.getD_none, share_self]
    have hpart : worth (v.returned ret.2) c ≤ c.scrtOwed.val := share_le (Word.le_def.1 hle)
    split
    · omega
    · exact Nat.le_refl 0
  · have hwin : st₁.queue.windows.lookup id = st.queue.windows.lookup id := hM.lookup_of_not_mem hid
    unfold Queue.unpaid
    rw [hcl, hwin]

/-- A payment takes its claim out of what is unpaid. -/
theorem Queue.Step.unpaid_le {q q' : Queue} {v : Addr} {i : ℕ} {p : Uint128}
    (hs : Queue.Step q (.pay v i p) q') (u : Addr) (id : ℕ) : q'.unpaid u id ≤ q.unpaid u id := by
  obtain ⟨w, c, sc, hw, -, hc, -, -, -, -, hwin, hcl⟩ := hs.pay_windows
  by_cases hid : id = i
  · subst hid
    have hw' : q'.windows.lookup id = some (w.paying sc) := by
      rw [hwin, Keymap.lookup_put, if_pos rfl]
    by_cases hu : u = v
    · subst hu
      have hc' : q'.claims.lookup (u, id) = some { c with claimed := true } := by
        rw [hcl, Keymap.lookup_put, if_pos rfl]
      rw [Queue.unpaid_eq hc' hw']
      exact Nat.zero_le _
    · -- to anybody else the window is worth what it was
      have hd' : q'.claims.lookup (u, id) = q.claims.lookup (u, id) := by
        rw [hcl, Keymap.lookup_put, if_neg fun he => hu (Prod.mk.inj he).1]
      rcases hd : q.claims.lookup (u, id) with _ | d
      · simp [Queue.unpaid, hd', hd]
      · rw [Queue.unpaid_eq (hd'.trans hd) hw', Queue.unpaid_eq hd hw]
        simp [worth]
  · have hd' : q'.claims.lookup (u, id) = q.claims.lookup (u, id) := by
      rw [hcl, Keymap.lookup_put, if_neg fun he => hid (Prod.mk.inj he).2]
    have hw' : q'.windows.lookup id = q.windows.lookup id := by
      rw [hwin, Keymap.lookup_put, if_neg hid]
    unfold Queue.unpaid
    rw [hd', hw']

theorem Payment.unpaid_le {v : Addr} (hP : Payment env v ids st st' paid hist) (u : Addr) (id : ℕ) :
    st'.queue.unpaid u id ≤ st.queue.unpaid u id := by
  refine hP.run.inv_of_mem (P := fun q => q.unpaid u id ≤ st.queue.unpaid u id) (Nat.le_refl _) ?_
  intro q m q' hm hle hs
  have hpay := hP.isPay m hm
  cases m with
  | pay v i p => exact (hs.unpaid_le u id).trans hle
  | _ => exact hpay.elim

/-- **An account can be shown its claims again** once less of them is unpaid. -/
theorem exists_answer (hB : Booked st) (hB' : Booked st') (hindex : st'.claimIndex u = st.claimIndex u)
    (hle : ∀ id, st'.queue.unpaid u id ≤ st.queue.unpaid u id)
    (hq : queryPendingClaims u st = .ok answer) : ∃ answer', queryPendingClaims u st' = .ok answer' := by
  obtain ⟨-, howed, -⟩ := (queryPendingClaims_eq_ok hB).1 hq
  have hfit : (((st'.claimIndex u).filterMap (st'.shown u)).map (·.open)).sum ≤ answer.totalOwed.val := by
    rw [howed, sum_shown, sum_shown, hindex]
    refine List.sum_le_sum fun id _ => ?_
    rw [open_shown hB, open_shown hB']
    exact hle id
  -- what can be collected now is part of what is owed
  have hpart : (((st'.claimIndex u).filterMap (st'.shown u)).map (·.due)).sum ≤
      (((st'.claimIndex u).filterMap (st'.shown u)).map (·.open)).sum :=
    List.sum_le_sum fun cl _ => by
      unfold UserClaim.due UserClaim.open UserClaim.ready
      cases cl.claimed <;> simp
      split <;> simp
  have hlt := answer.totalOwed.isLt
  exact ⟨⟨_, ⟨_, hfit.trans_lt hlt⟩, ⟨_, (hpart.trans hfit).trans_lt hlt⟩⟩,
    (queryPendingClaims_eq_ok hB').2 ⟨rfl, rfl, rfl⟩⟩

/-! ## What is marked as claimed -/

/-- The claim is marked as claimed. -/
def Collected (claims : Keymap (Addr × ℕ) ClaimRecord) (u : Addr) (id : ℕ) : Prop :=
  ∃ c, claims.lookup (u, id) = some c ∧ c.claimed = true

/-- A claim on a window that has matured. -/
def ClaimAcc.Payable (acc : ClaimAcc) (u : Addr) (id : ℕ) : Prop :=
  ∃ c v, acc.claims.lookup (u, id) = some c ∧ acc.windows.lookup id = some v ∧ v.state = .matured

/-- One turn marks its claim, keeps the marks there are, and leaves other windows alone. -/
theorem claimStep_marks {now : ℕ} {acc acc' : ClaimAcc} (h : claimStep now u acc id = .ok acc')
    (hid : Collected acc.claims u id ∨ acc.Payable u id) : Collected acc'.claims u id ∧
      ∀ i ≠ id, acc'.claims.lookup (u, i) = acc.claims.lookup (u, i) ∧
        acc'.windows.lookup i = acc.windows.lookup i := by
  unfold claimStep at h
  rcases hc : acc.claims.lookup (u, id) with _ | c
  · rcases hid with ⟨d, hd, -⟩ | ⟨d, _, hd, -⟩ <;> rw [hc] at hd <;> cases hd
  rw [hc] at h
  dsimp only at h
  split at h
  · rename_i hu
    rw [Except.ok.injEq] at h
    subst h
    exact ⟨⟨c, hc, hu⟩, fun _ _ => ⟨rfl, rfl⟩⟩
  · rename_i hu
    obtain ⟨d, v, hd, hv, hm⟩ := hid.resolve_left fun ⟨d, hd, hdu⟩ => by
      rw [hc, Option.some.injEq] at hd
      exact hu (hd ▸ hdu)
    rw [loadWindow, hv] at h
    simp only [orErr, ok_bind, hm, bind_eq_ok, pure_eq_ok] at h
    obtain ⟨payout, -, claimed, -, total, -, rfl⟩ := h
    refine ⟨⟨{ c with claimed := true }, by rw [Keymap.lookup_put, if_pos rfl], rfl⟩, fun i hi => ?_⟩
    rw [Keymap.lookup_put, Keymap.lookup_put, if_neg fun he => hi (Prod.mk.inj he).2, if_neg hi]
    exact ⟨rfl, rfl⟩

/-- **The loop marks every claim named**, when all their windows have matured. -/
theorem claimLoop_marks {now : ℕ} : ∀ {ids : List ℕ} {acc acc' : ClaimAcc},
    ids.foldlM (claimStep now u) acc = .ok acc' →
    (∀ id ∈ ids, Collected acc.claims u id ∨ acc.Payable u id) →
    ∀ id, id ∈ ids ∨ Collected acc.claims u id → Collected acc'.claims u id := by
  intro ids
  induction ids with
  | nil =>
    intro acc acc' h _ id hid
    rw [List.foldlM_nil, pure_eq_ok] at h
    subst h
    exact hid.resolve_left (by simp)
  | cons a ids ih =>
    intro acc acc' h hall id hid
    rw [List.foldlM_cons, bind_eq_ok] at h
    obtain ⟨mid, hstep, h⟩ := h
    obtain ⟨hnow, hother⟩ := claimStep_marks hstep (hall a List.mem_cons_self)
    -- a turn leaves the claims on other windows as they were
    have hkeep : ∀ i, Collected acc.claims u i → Collected mid.claims u i := by
      intro i hi
      by_cases he : i = a
      · exact he ▸ hnow
      · unfold Collected
        rwa [(hother i he).1]
    refine ih h (fun i hi => ?_) id ?_
    · by_cases he : i = a
      · exact .inl (he ▸ hnow)
      · refine (hall i (List.mem_cons_of_mem _ hi)).imp (hkeep i) fun hp => ?_
        unfold ClaimAcc.Payable
        rwa [(hother i he).1, (hother i he).2]
    · rcases hid with hid | hid
      · rcases List.mem_cons.1 hid with rfl | hid
        · exact .inr hnow
        · exact .inl hid
      · exact .inr (hkeep id hid)

/-- The loop of a claim that went through. -/
theorem executeClaimMatured_loop {deps : Deps} {info : MessageInfo} {windowIds : Option (List ℕ)}
    {resp : Response} (h : executeClaimMatured deps env info windowIds st = .ok (st', resp)) :
    ∃ st₁ marked acc, matureDueWindows deps env u32Max st = .ok (st₁, marked) ∧
      (claimIds info.sender windowIds st₁).foldlM (claimStep env.time info.sender)
        ⟨st₁.windows, st₁.claims, 0, []⟩ = .ok acc ∧ st'.claims = acc.claims := by
  unfold executeClaimMatured at h
  simp only [bind_eq_ok, Prod.exists] at h
  obtain ⟨st₁, marked, hmat, acc, hacc, h⟩ := h
  split at h
  · cases h
  · rw [pure_eq_ok, Prod.mk.injEq] at h
    refine ⟨st₁, marked, acc, hmat, hacc, ?_⟩
    rw [← h.1, pruneSettledWindows_eq]

/-! ## Collecting -/

/-- Marking leaves the claims that are ready as they were: their windows have matured already. -/
theorem Marking.ready_same {now limit : ℕ} {balance : Uint128} {rets : List (ℕ × Uint128)}
    (hB : Booked st) (hM : Marking now limit balance st st₁ rets)
    (hq : queryPendingClaims u st = .ok answer) (hid : id ∈ answer.ready) :
    ∃ c v, st₁.claims.lookup (u, id) = some c ∧ c.claimed = false ∧
      st₁.windows.lookup id = some v ∧ v.state = .matured ∧
      st₁.queue.dueTo u id = st.queue.dueTo u id := by
  obtain ⟨c, v, hc, hu, hv, hm⟩ := (mem_ready hB hq).1 hid
  have hcl : st₁.claims = st.claims := by rw [hM.frame]
  have hwin : st₁.windows.lookup id = st.windows.lookup id := hM.lookup_of_not_mem fun hmem => by
    obtain ⟨ret, hret, rfl⟩ := List.mem_map.1 hmem
    obtain ⟨v', hv', hs, -⟩ := hM.window hret
    rw [hv, Option.some.injEq] at hv'
    subst hv'
    rw [hm] at hs
    cases hs
  have hqueue : st₁.queue.claims.lookup (u, id) = st.queue.claims.lookup (u, id) := by
    rw [hM.queue_eq]
  have hdue : st₁.queue.dueTo u id = st.queue.dueTo u id := (Queue.dueTo_congr hqueue hwin).1
  exact ⟨c, v, hcl ▸ hc, hu, hwin ▸ hv, hm, hdue⟩

/-- **The claim that names what is ready** goes through, pays the total shown, and marks every
claim it names. -/
theorem claim_ready {deps : Deps} {balance : Uint128} (hB : Booked st)
    (hq : queryPendingClaims u st = .ok answer) (hpos : answer.totalClaimableNow ≠ 0)
    (hb : deps.queryBalance env.contract.address st.config.bondedDenom = .ok balance)
    (funds : List Coin) : ∃ st₁ rets st' resp hist,
      Marking env.time u32Max balance st st₁ rets ∧
      executeClaimMatured deps env ⟨u, funds⟩ (some answer.ready) st = .ok (st', resp) ∧
      Payment env u answer.ready st₁ st' answer.totalClaimableNow hist ∧
      resp.messages = [.bankSend u [⟨st.config.bondedDenom, answer.totalClaimableNow⟩]] ∧
      ∀ id ∈ answer.ready, Collected st'.claims u id := by
  obtain ⟨st₁, marked, hmat⟩ := matureDueWindows_total hB u32Max hb
  obtain ⟨b, rets, hb', hM, -⟩ := matureDueWindows_ok hB hmat
  rw [hb, Except.ok.injEq] at hb'
  subst hb'
  have hsum : ∑ id ∈ answer.ready.toFinset, st₁.queue.dueTo u id = answer.totalClaimableNow.val := by
    rw [total_shown hB hq]
    refine Finset.sum_congr rfl fun id hid => ?_
    obtain ⟨_, _, -, -, -, -, hdue⟩ := hM.ready_same hB hq (List.mem_toFinset.1 hid)
    exact hdue
  obtain ⟨st', resp, paid, hist, hok, hP, hmsg⟩ := executeClaimMatured_pays ⟨u, funds⟩
    (some answer.ready) hmat (hB.marking hM)
    (fun id hid => by
      obtain ⟨_, v, -, -, hv, hm, -⟩ := hM.ready_same hB hq hid
      exact Queue.not_blocked hv (by simp [hm]))
    (by
      show 0 < ∑ id ∈ answer.ready.toFinset, st₁.queue.dueTo u id
      rw [hsum]
      exact Nat.pos_of_ne_zero fun hz => hpos (Word.eq_zero_iff.2 hz))
  obtain rfl : paid = answer.totalClaimableNow := Word.ext (hP.amount.trans hsum)
  refine ⟨st₁, rets, st', resp, hist, hM, hok, hP, ?_, fun id hid => ?_⟩
  · rw [hmsg, hM.frame]
  · -- the loop ran over what the same marking left
    obtain ⟨st₂, marked', acc, hmat', hloop, hcl⟩ := executeClaimMatured_loop hok
    rw [hmat, Except.ok.injEq, Prod.mk.injEq] at hmat'
    obtain ⟨rfl, -⟩ := hmat'
    rw [hcl]
    refine claimLoop_marks hloop (fun i hi => .inr ?_) id (.inl hid)
    obtain ⟨c, v, hc, -, hv, hm, -⟩ := hM.ready_same hB hq hi
    exact ⟨c, v, hc, hv, hm⟩

/-- A claim marked as claimed is shown so. -/
theorem shown_collected (hB : Booked st) (hq : queryPendingClaims u st = .ok answer)
    (hcol : Collected st.claims u id) :
    (∃ cl ∈ answer.claims, cl.windowId = id) ∧
      ∀ cl ∈ answer.claims, cl.windowId = id → cl.claimed = true := by
  obtain ⟨c, hc, hu⟩ := hcol
  constructor
  · obtain ⟨v, hv⟩ := hB.claims.window u id c hc
    obtain ⟨p, -, -, hs⟩ := hB.shown_eq hc hv
    exact ⟨⟨id, c.sharesBurned, p, v.maturesAt, v.state, c.claimed⟩, (mem_shown hB hq).2 hs, rfl⟩
  · rintro cl hmem rfl
    obtain ⟨c', v, p, hc', -, -, hcl⟩ := (shown_eq_some hB).1 ((mem_shown hB hq).1 hmem)
    rw [hc, Option.some.injEq] at hc'
    rw [hcl, ← hc']
    exact hu

theorem sum_due (l : List UserClaim) :
    (l.map (·.due)).sum = ((l.filter (·.ready)).map (·.scrtOwed.val)).sum := by
  induction l with
  | nil => rfl
  | cons cl l ih =>
    rw [List.map_cons, List.sum_cons, ih]
    by_cases hr : cl.ready = true
    · rw [List.filter_cons_of_pos hr, List.map_cons, List.sum_cons, UserClaim.due, if_pos hr]
    · rw [List.filter_cons_of_neg hr, UserClaim.due, if_neg hr, Nat.zero_add]

/-- The total counts the claims shown as ready. -/
theorem total_claims (hB : Booked st) (hq : queryPendingClaims u st = .ok answer) :
    answer.totalClaimableNow.val =
      ((answer.claims.filter (·.ready)).map (·.scrtOwed.val)).sum := by
  obtain ⟨hl, -, hn⟩ := (queryPendingClaims_eq_ok hB).1 hq
  rw [← sum_due, hn, hl]
  exact ((List.perm_insertionSort _ _).map _).sum_eq.symm

/-- **What is shown is what a claim pays.** In every reachable world, an account that is shown a
total it can collect now names the windows shown as unclaimed and matured: the transaction goes
through and sends it exactly that total. Afterwards it can be shown its claims again; those it
named are all there and shown as claimed, and the new total is that of the others. -/
theorem shown_is_paid (h : World.Reaches World.step w)
    (hq : queryPendingClaims u w.store = .ok answer) (hpos : answer.totalClaimableNow ≠ 0)
    (view : Deps) {funds : List Coin} {b : Uint128} (hf : w.funded ⟨u, funds⟩ = some b) :
    let t : Tx := ⟨view, ⟨u, funds⟩, .claimMatured (some answer.ready)⟩
    ∃ w' resp answer', w.call t = some (b, w'.store, resp) ∧ w.tx t = some w' ∧
      resp.messages = [.bankSend u [⟨w.store.config.bondedDenom, answer.totalClaimableNow⟩]] ∧
      queryPendingClaims u w'.store = .ok answer' ∧
      (∀ id ∈ answer.ready, (∃ cl ∈ answer'.claims, cl.windowId = id) ∧
        ∀ cl ∈ answer'.claims, cl.windowId = id → cl.claimed = true) ∧
      answer'.totalClaimableNow.val = ((answer'.claims.filter fun cl =>
        cl.ready ∧ cl.windowId ∉ answer.ready).map (·.scrtOwed.val)).sum := by
  intro t
  have hsol : Solvent w := h.inv (fun _ hf => hf.solvent) fun _ _ _ hs => hs.step
  have hB := hsol.booked
  obtain ⟨st₁, rets, st', resp, hist, hM, hok, hP, hmsg, hcol⟩ :=
    claim_ready hB hq hpos (w.deps_balance view b) funds
  have hcall : w.call t = some (b, st', resp) := World.call_eq_some.2 ⟨hf, hok⟩
  obtain ⟨w', htx, hst⟩ := hsol.claim_runs rfl hcall
  subst hst
  have hB' := (hsol.tx htx).booked
  -- what is unpaid only shrinks, first by the marking and then by the payment
  obtain ⟨answer', hq'⟩ := exists_answer hB hB' (by rw [hP.frame, hM.frame])
    (fun id => (hP.unpaid_le u id).trans (hM.unpaid_le hB u id)) hq
  refine ⟨w', resp, answer', hcall, htx, hmsg, hq', fun id hid => shown_collected hB' hq' (hcol id hid), ?_⟩
  rw [total_claims hB' hq']
  congr 2
  refine List.filter_congr fun cl hcl => ?_
  by_cases hid : cl.windowId ∈ answer.ready
  · have hclaimed := (shown_collected hB' hq' (hcol _ hid)).2 cl hcl rfl
    simp [UserClaim.ready, hclaimed]
  · simp [hid]

/-- One window has been collected, with 30 of its 40 SCRT; the other has since fallen due. -/
def devShownReady : List Event :=
  devTwoClosed ++ [.time (devStart + 26 * 86400), .credit 0 (Uint128.new 30000000), devCollect,
    .time (devStart + 31 * 86400), .credit 1 (Uint128.new 10000000)]

set_option maxRecDepth 10000 in
/-- The account is shown 30 SCRT, which the claim of the first window pays. -/
theorem shown_is_paid_short : ∃ w answer, devShownReady.foldlM World.step devWorld = some w ∧
    queryPendingClaims "user" w.store = .ok answer ∧
    answer.totalClaimableNow = Uint128.new 30000000 ∧
    ∃ w' resp answer',
      w.call ⟨devHalved, ⟨"user", []⟩, .claimMatured (some answer.ready)⟩ =
        some (w.balance, w'.store, resp) ∧
      w.tx ⟨devHalved, ⟨"user", []⟩, .claimMatured (some answer.ready)⟩ = some w' ∧
      resp.messages =
        [.bankSend "user" [⟨w.store.config.bondedDenom, answer.totalClaimableNow⟩]] ∧
      queryPendingClaims "user" w'.store = .ok answer' ∧
      (∀ id ∈ answer.ready, (∃ cl ∈ answer'.claims, cl.windowId = id) ∧
        ∀ cl ∈ answer'.claims, cl.windowId = id → cl.claimed = true) ∧
      answer'.totalClaimableNow.val = ((answer'.claims.filter fun cl =>
        cl.ready ∧ cl.windowId ∉ answer.ready).map (·.scrtOwed.val)).sum := by
  have hrun : (devShownReady.foldlM World.step devWorld).map (fun w =>
      (queryPendingClaims "user" w.store).toOption.map (·.totalClaimableNow)) =
      some (some (Uint128.new 30000000)) := by decide +kernel
  obtain ⟨w, hw, hq⟩ := Option.map_eq_some_iff.1 hrun
  obtain ⟨answer, hq, ht⟩ := Option.map_eq_some_iff.1 hq
  rw [toOption_eq_some] at hq
  exact ⟨w, answer, hw, hq, ht, shown_is_paid ⟨_, World.along_replay devWorld_fresh hw⟩ hq
    (by rw [ht]; decide) devHalved (World.funded_eq_some.2 rfl)⟩

end LstCore
