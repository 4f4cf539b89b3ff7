import LstCore.Proof.World

/-!
# Claiming

* `matured_claim_pays`: a claim against one matured window always pays, and nothing but the
  queue, the matured total and the bank has a say in it.
* `claim_all_pays_iff`: a claim that names no windows pays everything payable exactly when
  none of the account's unpaid claims is against a window still in flight and not due.
-/

namespace LstCore

open Lib

variable {deps deps' : Deps} {env : Env} {info : MessageInfo} {st st' st₁ : Storage} {u : Addr}
  {id : ℕ} {balance : Uint128} {c : ClaimRecord} {w : UnbondWindow}

/-! ## One window -/

/-- The storages agree on everything a claim reads. -/
structure ClaimsAlike (st st' : Storage) : Prop where
  windows : st'.windows = st.windows
  activeWindows : st'.activeWindows = st.activeWindows
  claims : st'.claims = st.claims
  claimIndex : st'.claimIndex = st.claimIndex
  owedMatured : st'.totals.scrtOwedMatured = st.totals.scrtOwedMatured
  bondedDenom : st'.config.bondedDenom = st.config.bondedDenom

/-- Marking comes out alike: it fails for the same reason, or marks the same windows. -/
theorem matureDueWindows_alike (h : ClaimsAlike st st')
    (hb : deps'.queryBalance env.contract.address st.config.bondedDenom =
      deps.queryBalance env.contract.address st.config.bondedDenom) (limit : ℕ) :
    (∃ e, matureDueWindows deps env limit st = .error e ∧
      matureDueWindows deps' env limit st' = .error e) ∨
    ∃ st₁ st₁' ids, matureDueWindows deps env limit st = .ok (st₁, ids) ∧
      matureDueWindows deps' env limit st' = .ok (st₁', ids) ∧ ClaimsAlike st₁ st₁' := by
  unfold matureDueWindows
  rw [h.bondedDenom, hb, h.windows, h.activeWindows, h.owedMatured]
  -- both go through the same steps on the same figures, to the same error or the same marks
  rcases liftStd (deps.queryBalance env.contract.address st.config.bondedDenom) with e | b
  · exact .inl ⟨e, rfl, rfl⟩
  rw [ok_bind, ok_bind]
  rcases spokenForBy st.windows st.activeWindows with e | s
  · exact .inl ⟨e, rfl, rfl⟩
  rw [ok_bind, ok_bind]
  rcases st.activeWindows.foldlM (matureStep env.time (max limit 1) b)
    ⟨st.windows, s, [], [], 0, 0⟩ with e | acc
  · exact .inl ⟨e, rfl, rfl⟩
  rw [ok_bind, ok_bind]
  by_cases hnil : acc.matured = []
  · rw [if_pos hnil, if_pos hnil]
    exact .inr ⟨_, _, _, rfl, rfl, h⟩
  · rw [if_neg hnil, if_neg hnil]
    rcases add st.totals.scrtOwedMatured acc.realisedTotal with e | om
    · exact .inl ⟨e, rfl, rfl⟩
    · exact .inr ⟨_, _, _, rfl, rfl, rfl, rfl, h.claims, h.claimIndex, rfl, h.bondedDenom⟩

/-- **What a claim depends on**: storages alike and a bank that answers alike give the same
outcome, whatever else differs. -/
theorem executeClaimMatured_alike (h : ClaimsAlike st st')
    (hb : deps'.queryBalance env.contract.address st.config.bondedDenom =
      deps.queryBalance env.contract.address st.config.bondedDenom) (ids : Option (List ℕ)) :
    (executeClaimMatured deps' env info ids st').map (·.2) =
      (executeClaimMatured deps env info ids st).map (·.2) := by
  unfold executeClaimMatured
  rcases matureDueWindows_alike h hb u32Max with ⟨e, h1, h2⟩ | ⟨st₁, st₁', marked, h1, h2, ha⟩
  · rw [h1, h2]
  · rw [h1, h2, ok_bind, ok_bind]
    simp only [claimIds, ha.claimIndex, ha.windows, ha.claims, ha.bondedDenom]
    rcases (ids.getD (st₁.claimIndex info.sender)).foldlM (claimStep env.time info.sender)
      ⟨st₁.windows, st₁.claims, 0, []⟩ with e | acc
    · rfl
    · rw [ok_bind, ok_bind]
      by_cases hz : acc.paid = 0
      · rw [if_pos hz, if_pos hz]
      · rw [if_neg hz, if_neg hz]; rfl

/-- A window that has come back or is due is matured once a claim has marked. -/
theorem Marking.matured {now : ℕ} {rets : List (ℕ × Uint128)} (h : Slotted st) (hB : Booked st)
    (hM : Marking now u32Max balance st st₁ rets) (hw : st.windows.lookup id = some w)
    (hm : w.state = .matured ∨ w.state = .unbonding ∧ w.maturesAt ≤ now) :
    ∃ w₁, st₁.windows.lookup id = some w₁ ∧ w₁.state = .matured ∧ w₁.scrtOwed = w.scrtOwed ∧
      (w.state = .matured → w₁ = w) := by
  by_cases hid : id ∈ rets.map (·.1)
  · obtain ⟨ret, hret, rfl⟩ := List.mem_map.1 hid
    obtain ⟨v, hv, hs, -, -, hv'⟩ := hM.lookup_of_mem hB hret
    rw [hw] at hv
    cases hv
    exact ⟨_, hv', rfl, rfl, fun hs' => by simp [hs] at hs'⟩
  · refine ⟨w, (hM.lookup_of_not_mem hid).trans hw, ?_, rfl, fun _ => rfl⟩
    rcases hm with hm | ⟨hs, hdue⟩
    · exact hm
    · -- a window that is due is on the active list, so a claim marks it
      refine absurd ?_ hid
      rw [hM.all_due h hB]
      exact List.mem_filter.2
        ⟨(hB.shape.active id).2 ⟨w, hw, .inl hs⟩, dueIn_iff.2 ⟨w, hw, hs, hdue⟩⟩

theorem response_eta {resp : Response} {messages : List CosmosMsg} (h : resp.messages = messages) :
    resp = ⟨messages, resp.data⟩ := by rw [← h]

/-- **A matured claim is never trapped.** In every reachable storage, for an unpaid claim
against a window that has come back or is due: marking succeeds and leaves the window
matured; if the payout it then gives is positive, naming the window succeeds and sends
exactly that payout; and the outcome is the same for every other storage and chain that
agree on the queue, the matured total and the balance. -/
theorem matured_claim_pays (h : Reachable st)
    (hb : deps.queryBalance env.contract.address st.config.bondedDenom = .ok balance)
    (hc : st.claims.lookup (info.sender, id) = some c) (hu : c.claimed = false)
    (hw : st.windows.lookup id = some w)
    (hm : w.state = .matured ∨ w.state = .unbonding ∧ w.maturesAt ≤ env.time) :
    (∃ st₁ ids w₁ p, matureDueWindows deps env u32Max st = .ok (st₁, ids) ∧
      st₁.windows.lookup id = some w₁ ∧ w₁.state = .matured ∧ w₁.scrtOwed = w.scrtOwed ∧
      (w.state = .matured → w₁ = w) ∧ Windows.payoutForClaim w₁ c.scrtOwed = .ok p ∧
      (p ≠ 0 → ∃ st' data, execute deps env info (.claimMatured (some [id])) st =
        .ok (st', ⟨[.bankSend info.sender [⟨st.config.bondedDenom, p⟩]], data⟩))) ∧
    ∀ deps' st', ClaimsAlike st st' →
      deps'.queryBalance env.contract.address st.config.bondedDenom = .ok balance →
      (execute deps' env info (.claimMatured (some [id])) st').map (·.2) =
        (execute deps env info (.claimMatured (some [id])) st).map (·.2) := by
  refine ⟨?_, fun deps' st' ha hb' => executeClaimMatured_alike ha (hb'.trans hb.symm) _⟩
  have hB := h.booked
  obtain ⟨st₁, ids, hmat⟩ := matureDueWindows_total hB u32Max hb
  obtain ⟨b, rets, hb', hM, -⟩ := matureDueWindows_ok hB hmat
  have hB₁ := hB.marking hM
  obtain ⟨w₁, hw₁, hs₁, ho₁, hsame⟩ := hM.matured h.slotted hB hw hm
  have hc₁ : st₁.queue.claims.lookup (info.sender, id) = some c := by rw [hM.queue_eq]; exact hc
  have hdue : st₁.queue.dueTo info.sender id = worth w₁ c :=
    Queue.dueTo_of_matured hc₁ hu hw₁ hs₁
  have hle := Queue.dueTo_le hB₁.claims info.sender id
  have hlt := st₁.totals.scrtOwedMatured.isLt
  have hom := hB₁.owedMatured
  -- the payout fits a word, since it is part of what the matured windows owe
  obtain ⟨p, hp⟩ : ∃ p : Uint128, p.val = worth w₁ c := ⟨⟨worth w₁ c, by omega⟩, rfl⟩
  refine ⟨st₁, ids, w₁, p, hmat, hw₁, hs₁, ho₁, hsame, payoutForClaim_eq_ok.2 hp, fun hpos => ?_⟩
  have hpos' : p.val ≠ 0 := fun he => hpos (Word.eq_zero_iff.2 he)
  obtain ⟨st', resp, paid, hist, hok, hP, hmsg⟩ := executeClaimMatured_pays info (some [id]) hmat hB₁
    (fun i hi hbl => by
      simp only [claimIds, Option.getD_some, List.mem_singleton] at hi
      subst hi
      obtain ⟨d, v, -, -, hv, hvs⟩ := hbl
      rw [show st₁.queue.windows.lookup i = some w₁ from hw₁] at hv
      cases hv
      simp [hs₁] at hvs)
    (by simp [claimIds, hdue]; omega)
  have hpaid : paid = p := by
    have := hP.amount
    simp only [claimIds, Option.getD_some, List.toFinset_cons, List.toFinset_nil, insert_empty_eq,
      Finset.sum_singleton, hdue] at this
    exact Word.ext (this.trans hp.symm)
  have hden : st₁.config.bondedDenom = st.config.bondedDenom := by rw [hM.frame]
  refine ⟨st', resp.data, ?_⟩
  rw [hpaid, hden] at hmsg
  rw [← response_eta hmsg]
  exact hok

set_option maxRecDepth 10000 in
theorem matured_claim_pays_returned : ∃ w, devReturned.foldlM World.step devWorld = some w ∧
    ∃ st₁ ids w₁ p,
      matureDueWindows (w.deps devBonded w.balance) w.env u32Max w.store = .ok (st₁, ids) ∧
      st₁.windows.lookup 0 = some w₁ ∧ w₁.state = .matured ∧
      Windows.payoutForClaim w₁ (Uint128.new 40000000) = .ok p ∧
      (p ≠ 0 → ∃ st' data, execute (w.deps devBonded w.balance) w.env ⟨"user", []⟩
        (.claimMatured (some [0])) w.store =
          .ok (st', ⟨[.bankSend "user" [⟨w.store.config.bondedDenom, p⟩]], data⟩)) := by
  have hrun : (devReturned.foldlM World.step devWorld).map (fun w =>
      (w.store.claims.lookup ("user", 0), (w.store.windows.lookup 0).map fun v =>
        (v.state, decide (v.maturesAt ≤ w.now)))) =
      some (some ⟨0, Uint128.new 40000000, Uint128.new 40000000, false⟩, some (.unbonding, true)) := by
    decide +kernel
  obtain ⟨w, hw, hcv⟩ := Option.map_eq_some_iff.1 hrun
  rw [Prod.mk.injEq] at hcv
  obtain ⟨hc, hv⟩ := hcv
  obtain ⟨v, hv, hs⟩ := Option.map_eq_some_iff.1 hv
  rw [Prod.mk.injEq, decide_eq_true_eq] at hs
  obtain ⟨st₁, ids, w₁, p, hmat, hw₁, hs₁, -, -, hp, hpay⟩ :=
    (@matured_claim_pays _ _ ⟨"user", []⟩ _ _ _ _ _ (World.replay_reachable devWorld_fresh hw)
      (w.deps_balance devBonded w.balance) hc rfl hv (.inr hs)).1
  exact ⟨w, hw, st₁, ids, w₁, p, hmat, hw₁, hs₁, hp, hpay⟩

/-! ## Every window -/

/-- What an account can be paid on all its claims: the worth of every unpaid one against a
matured window. -/
def Queue.dueToAll (q : Queue) (u : Addr) : ℕ :=
  q.claims.total fun k _ => if k.1 = u then q.dueTo u k.2 else 0

/-- The index of an account reaches everything it can be paid. -/
theorem Queue.Claims.sum_dueTo {q : Queue} (hC : q.Claims) (u : Addr) :
    ∑ id ∈ (q.claimIndex u).toFinset, q.dueTo u id = q.dueToAll u := by
  have hnd := hC.index_nodup u
  have hkeys : ((q.claimIndex u).map fun id => (u, id)).Nodup :=
    hnd.map fun _ _ he => (Prod.mk.inj he).2
  unfold Queue.dueToAll
  rw [Keymap.total_eq_sum hkeys, List.map_map, ← List.sum_toFinset _ hnd]
  · refine Finset.sum_congr rfl fun id _ => ?_
    simp only [Function.comp_apply, if_true]
    rcases hc : q.claims.lookup (u, id) with _ | c
    · simp [Queue.dueTo, hc]
    · rfl
  · rintro ⟨v, id⟩ c hc hne
    have hv : v = u := by
      by_contra hv
      simp [hv] at hne
    subst hv
    exact List.mem_map.2 ⟨id, hC.mem_index hc, rfl⟩

theorem Queue.dueTo_le_all {q : Queue} (hc : q.claims.lookup (u, id) = some c) :
    q.dueTo u id ≤ q.dueToAll u := by
  have hle := Keymap.le_total (f := fun (k : Addr × ℕ) (_ : ClaimRecord) =>
    if k.1 = u then q.dueTo u k.2 else 0) hc
  rwa [if_pos rfl] at hle

/-- **When a claim that names no windows pays.** In every reachable storage where marking
leaves the account some unpaid claim with a positive payout against a matured window: the
claim succeeds and sends exactly the sum of the payouts of all its unpaid claims against
matured windows, if and only if no unpaid claim of its is against a window in flight that
is not due. -/
theorem claim_all_pays_iff (h : Reachable st)
    (hb : deps.queryBalance env.contract.address st.config.bondedDenom = .ok balance) :
    ∃ st₁ ids, matureDueWindows deps env u32Max st = .ok (st₁, ids) ∧
      ((∃ id c w p, st₁.claims.lookup (info.sender, id) = some c ∧ c.claimed = false ∧
          st₁.windows.lookup id = some w ∧ w.state = .matured ∧
          Windows.payoutForClaim w c.scrtOwed = .ok p ∧ p ≠ 0) →
        ((∃ st' paid data, execute deps env info (.claimMatured none) st =
            .ok (st', ⟨[.bankSend info.sender [⟨st.config.bondedDenom, paid⟩]], data⟩) ∧
            paid.val = st₁.queue.dueToAll info.sender) ↔
          ∀ id c w, st.claims.lookup (info.sender, id) = some c → c.claimed = false →
            st.windows.lookup id = some w → w.state = .unbonding → w.maturesAt ≤ env.time)) := by
  have hB := h.booked
  obtain ⟨st₁, ids, hmat⟩ := matureDueWindows_total hB u32Max hb
  obtain ⟨b, rets, -, hM, -⟩ := matureDueWindows_ok hB hmat
  have hB₁ := hB.marking hM
  have hcl : st₁.claims = st.claims := by rw [hM.frame]
  have hix : st₁.claimIndex = st.claimIndex := by rw [hM.frame]
  have hden : st₁.config.bondedDenom = st.config.bondedDenom := by rw [hM.frame]
  refine ⟨st₁, ids, hmat, ?_⟩
  rintro ⟨id, c, w, p, hc, hu, hw, hs, hp, hpos⟩
  constructor
  · rintro ⟨st', paid, data, hok, -⟩ i d v hd hdu hv hvs
    by_contra hlt
    obtain ⟨_, _, st₂, _, _, -, hM₂, -, hP, -⟩ := executeClaimMatured_ok hB hok
    -- a window not due is still in flight after marking, so the claim on it blocks
    obtain ⟨hv₂, -⟩ := (hM₂.in_flight_iff h.slotted hB).2 ⟨hv, hvs, by omega⟩
    have hix₂ : st₂.claimIndex = st.claimIndex := by rw [hM₂.frame]
    have hcl₂ : st₂.claims = st.claims := by rw [hM₂.frame]
    refine hP.free i ?_ ⟨d, v, by rw [← hcl₂] at hd; exact hd, hdu, hv₂, hvs⟩
    simp only [claimIds, Option.getD_none, hix₂]
    exact hB.claims.mem_index hd
  · intro hall
    -- a claim blocked after the marking would be on a window that is not due
    have hsum := hB₁.claims.sum_dueTo info.sender
    have hdue : st₁.queue.dueTo info.sender id = worth w c :=
      Queue.dueTo_of_matured hc hu hw hs
    have hle := Queue.dueTo_le_all (q := st₁.queue) hc
    have hworth : p.val = worth w c := payoutForClaim_eq_ok.1 hp
    have hpos' : p.val ≠ 0 := fun he => hpos (Word.eq_zero_iff.2 he)
    obtain ⟨st', resp, paid, hist, hok, hP, hmsg⟩ := executeClaimMatured_pays info none hmat hB₁
      (fun i _ hbl => by
        obtain ⟨d, v, hd, hdu, hv, hvs⟩ := hbl
        obtain ⟨hv, -, hlt⟩ := (hM.in_flight_iff h.slotted hB).1 ⟨hv, hvs⟩
        have := hall i d v (by rw [← hcl]; exact hd) hdu hv hvs
        omega)
      (by
        simp only [claimIds, Option.getD_none]
        rw [show st₁.claimIndex info.sender = st₁.queue.claimIndex info.sender from rfl, hsum]
        omega)
    rw [hden] at hmsg
    exact ⟨st', paid, resp.data, by rw [← response_eta hmsg]; exact hok, hP.amount.trans hsum⟩

/-- The first of two windows comes back; the second is in flight for five more days. -/
def devTwoClaims : List Event :=
  devTwoClosed ++ [.time (devStart + 26 * 86400), .credit 0 (Uint128.new 40000000)]

set_option maxRecDepth 10000 in
/-- The first claim is worth 40 SCRT and its window is due; the second is in flight for five
more days, and aborts the call. -/
theorem claim_all_blocked : ∃ w, devTwoClaims.foldlM World.step devWorld = some w ∧
    Reachable w.store ∧ ∃ st₁ ids c v p,
      matureDueWindows (w.deps devHalved w.balance) w.env u32Max w.store = .ok (st₁, ids) ∧
      st₁.claims.lookup ("user", 0) = some c ∧ c.claimed = false ∧
      st₁.windows.lookup 0 = some v ∧ v.state = .matured ∧
      Windows.payoutForClaim v c.scrtOwed = .ok p ∧ p = Uint128.new 40000000 ∧
      execute (w.deps devHalved w.balance) w.env ⟨"user", []⟩ (.claimMatured none) w.store =
        .error (.err (.windowNotMatured 1 (devStart + 31 * 86400) (devStart + 26 * 86400))) := by
  have hmat : (devTwoClaims.foldlM World.step devWorld).map (fun w =>
      (matureDueWindows (w.deps devHalved w.balance) w.env u32Max w.store).toOption.map fun r =>
        ((r.1.claims.lookup ("user", 0)).map fun c => (c.claimed, c.scrtOwed),
          (r.1.windows.lookup 0).map fun v =>
            (v.state, (Windows.payoutForClaim v (Uint128.new 40000000)).toOption))) =
      some (some (some (false, Uint128.new 40000000),
        some (.matured, some (Uint128.new 40000000)))) := by decide +kernel
  have herr : (devTwoClaims.foldlM World.step devWorld).map (fun w =>
      match execute (w.deps devHalved w.balance) w.env ⟨"user", []⟩ (.claimMatured none) w.store with
      | .ok _ => none
      | .error e => some e) =
      some (some (.err (.windowNotMatured 1 (devStart + 31 * 86400) (devStart + 26 * 86400)))) := by
    decide +kernel
  obtain ⟨w, hw, hf⟩ := Option.map_eq_some_iff.1 hmat
  obtain ⟨⟨st₁, ids⟩, hmat, hf⟩ := Option.map_eq_some_iff.1 hf
  rw [Prod.mk.injEq] at hf
  obtain ⟨c, hc, hcv⟩ := Option.map_eq_some_iff.1 hf.1
  obtain ⟨v, hv, hvp⟩ := Option.map_eq_some_iff.1 hf.2
  rw [Prod.mk.injEq] at hcv hvp
  refine ⟨w, hw, World.replay_reachable devWorld_fresh hw, st₁, ids, c, v, Uint128.new 40000000,
    toOption_eq_some.1 hmat, hc, hcv.1, hv, hvp.1, ?_, rfl, ?_⟩
  · rw [hcv.2]
    exact toOption_eq_some.1 hvp.2
  · rw [hw, Option.map_some, Option.some.injEq] at herr
    revert herr
    rcases execute (w.deps devHalved w.balance) w.env ⟨"user", []⟩ (.claimMatured none) w.store with e | r
    · intro herr
      rw [Option.some.injEq] at herr
      rw [herr]
    · intro herr
      cases herr

set_option maxRecDepth 10000 in
/-- The only claim of the user is against the window that has come back, and is paid. -/
theorem claim_all_pays_iff_returned : ∃ w, devReturned.foldlM World.step devWorld = some w ∧
    ∃ st' paid data, execute (w.deps devBonded w.balance) w.env ⟨"user", []⟩ (.claimMatured none)
      w.store = .ok (st', ⟨[.bankSend "user" [⟨w.store.config.bondedDenom, paid⟩]], data⟩) ∧
      paid = Uint128.new 40000000 := by
  have hmat : (devReturned.foldlM World.step devWorld).map (fun w =>
      (matureDueWindows (w.deps devBonded w.balance) w.env u32Max w.store).toOption.map fun r =>
        ((r.1.claims.lookup ("user", 0)).map fun c => (c.claimed, c.scrtOwed),
          (r.1.windows.lookup 0).map fun v =>
            (v.state, (Windows.payoutForClaim v (Uint128.new 40000000)).toOption))) =
      some (some (some (false, Uint128.new 40000000),
        some (.matured, some (Uint128.new 40000000)))) := by decide +kernel
  have hsum : (devReturned.foldlM World.step devWorld).map (fun w =>
      (matureDueWindows (w.deps devBonded w.balance) w.env u32Max w.store).toOption.map fun r =>
        r.1.queue.dueToAll "user") = some (some 40000000) := by decide +kernel
  have hdue : (devReturned.foldlM World.step devWorld).map (fun w => (w.store.claims.keys,
      (w.store.windows.lookup 0).map fun v => decide (v.maturesAt ≤ w.now))) =
      some ([("user", 0)], some true) := by decide +kernel
  obtain ⟨w, hw, hf⟩ := Option.map_eq_some_iff.1 hmat
  obtain ⟨⟨st₁, ids⟩, hmat, hf⟩ := Option.map_eq_some_iff.1 hf
  obtain ⟨hclaim, hwindow⟩ := Prod.mk.inj hf
  rw [hw, Option.map_some, Option.some.injEq, hmat, Option.map_some, Option.some.injEq] at hsum
  obtain ⟨c, hc, hcv⟩ := Option.map_eq_some_iff.1 hclaim
  obtain ⟨v, hv, hvp⟩ := Option.map_eq_some_iff.1 hwindow
  rw [Prod.mk.injEq] at hcv hvp
  rw [hw, Option.map_some, Option.some.injEq, Prod.mk.injEq] at hdue
  obtain ⟨hkeys, hdue⟩ := hdue
  obtain ⟨v₀, hv₀, hdue⟩ := Option.map_eq_some_iff.1 hdue
  obtain ⟨st₂, ids₂, hmat₂, hpays⟩ := @claim_all_pays_iff _ _ ⟨"user", []⟩ _ _
    (World.replay_reachable devWorld_fresh hw) (w.deps_balance devBonded w.balance)
  obtain rfl : st₁ = st₂ :=
    congrArg Prod.fst (Except.ok.inj ((toOption_eq_some.1 hmat).symm.trans hmat₂))
  have hworth : Windows.payoutForClaim v c.scrtOwed = .ok (Uint128.new 40000000) := by
    rw [hcv.2]
    exact toOption_eq_some.1 hvp.2
  have hclaimable : ∃ id c v p, st₁.claims.lookup ("user", id) = some c ∧ c.claimed = false ∧
      st₁.windows.lookup id = some v ∧ v.state = .matured ∧
      Windows.payoutForClaim v c.scrtOwed = .ok p ∧ p ≠ 0 :=
    ⟨0, c, v, Uint128.new 40000000, hc, hcv.1, hv, hvp.1, hworth, by decide⟩
  have hnone : ∀ id c v, w.store.claims.lookup ("user", id) = some c → c.claimed = false →
      w.store.windows.lookup id = some v → v.state = .unbonding → v.maturesAt ≤ w.now := by
    intro id c v hc _ hv _
    have hmem : ("user", id) ∈ w.store.claims.keys := AList.lookup_isSome.1 (by rw [hc]; rfl)
    rw [hkeys, List.mem_singleton, Prod.mk.injEq] at hmem
    obtain ⟨-, rfl⟩ := hmem
    rw [hv₀, Option.some.injEq] at hv
    exact hv ▸ of_decide_eq_true hdue
  obtain ⟨st', paid, data, hexec, hpaid⟩ := (hpays hclaimable).2 hnone
  exact ⟨w, hw, st', paid, data, hexec, Word.ext (hpaid.trans hsum)⟩

end LstCore
