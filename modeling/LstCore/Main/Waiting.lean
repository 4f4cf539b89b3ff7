import LstCore.Main.Authority
import LstCore.Main.ClaimOrder
import LstCore.Main.Claiming
import LstCore.Main.LifeCycle
import LstCore.Proof.Apart
import LstCore.Proof.Prompt

/-!
# Waiting

A claim waits for the account that has it. Whatever anybody else does, and whatever the account does
with other windows, an unpaid claim against a window that has closed stays as it is.

* `waiting_costs_nothing`: against a window that has come back it pays what it was worth then,
  whenever it is made.
* `paid_in_full`: where what comes back is credited in full, and before the window is marked, it pays
  all that it is owed from the time the window matures on.
-/

namespace LstCore

open Lib World

variable {deps : Deps} {env : Env} {info : MessageInfo} {msg : ExecuteMsg} {resp : Response}
  {st st' st₁ : Storage} {u v : Addr} {id i : ℕ} {c : ClaimRecord} {win win' : UnbondWindow}
  {w w' : World} {e : Event} {t : Tx} {h : List Event}

/-! ## Claims -/

/-- A request writes no claim against another window than the open one. -/
theorem Queue.Step.join_claims {q q' : Queue} {shares owed : Uint128}
    (hs : Queue.Step q (.join v shares owed) q') (hi : i ≠ q.openWindow) :
    q'.claims.lookup (u, i) = q.claims.lookup (u, i) := by
  have hother : ∀ d : ClaimRecord,
      (q.claims.insert (v, q.openWindow) d).lookup (u, i) = q.claims.lookup (u, i) := by
    intro d
    rw [Keymap.lookup_put, if_neg]
    exact fun he => hi (congrArg Prod.snd he)
  cases hs with
  | joinNew => exact hother _
  | joinOld => exact hother _

/-- One turn of the claim loop writes one claim at most. -/
theorem claimStep_claims {now : ℕ} {acc acc' : ClaimAcc} (h : claimStep now v acc i = .ok acc')
    (hne : (u, id) ≠ (v, i)) : acc'.claims.lookup (u, id) = acc.claims.lookup (u, id) := by
  unfold claimStep at h
  split at h
  · cases h
    rfl
  · split at h
    · cases h
      rfl
    · simp only [bind_eq_ok] at h
      obtain ⟨x, -, h⟩ := h
      split at h
      · simp only [bind_eq_ok, pure_eq_ok] at h
        obtain ⟨_, -, _, -, _, -, rfl⟩ := h
        dsimp only
        rw [Keymap.lookup_put, if_neg hne]
      · cases h
      · cases h
        rfl

theorem claimLoop_claims {now : ℕ} {ids : List ℕ} {acc acc' : ClaimAcc}
    (h : ids.foldlM (claimStep now v) acc = .ok acc') (hne : v = u → id ∉ ids) :
    acc'.claims.lookup (u, id) = acc.claims.lookup (u, id) := by
  refine (foldlM_inv (fun l s => (v = u → id ∉ l) ∧
    s.claims.lookup (u, id) = acc.claims.lookup (u, id)) ?_ ids acc acc' ⟨hne, rfl⟩ h).2
  rintro i l s s' ⟨hl, hs⟩ hstep
  refine ⟨fun hv hid => hl hv (List.mem_cons_of_mem i hid), ?_⟩
  rw [claimStep_claims hstep, hs]
  rintro he
  obtain ⟨rfl, rfl⟩ := Prod.mk.inj he
  exact hl rfl List.mem_cons_self

/-- **Only requests and claims touch the claims.** -/
theorem execute_unbooked (hB : Booked st) (hm : msg.booksClaims = false)
    (h : execute deps env info msg st = .ok (st', resp)) : st'.claims = st.claims := by
  cases msg with
  | receive | claimMatured => cases hm
  | deposit =>
    obtain ⟨st₁, deposit, shares, messages, closing, ha, hc, -⟩ := executeDeposit_ok h
    have hkeep : Keeps st st₁ := Apart.keeps acceptDeposit_apart ha
    exact (Apart.keeps closeWindowIfOverdue_apart hc).claims.trans hkeep.claims
  | _ => exact execute_claims hB rfl h

/-- A message that claims a window: it names it, or names none at all. -/
def ExecuteMsg.ClaimsWindow (id : ℕ) : ExecuteMsg → Prop
  | .claimMatured ids => ∀ l ∈ ids, id ∈ l
  | _ => False

/-- **A claim is the account's own to touch**, once its window has closed. -/
theorem execute_waits (hB : Booked st) (hw : st.windows.lookup id = some win)
    (hs : win.state ≠ .open) (hc : st.claims.lookup (u, id) = some c)
    (hn : ¬ (info.sender = u ∧ msg.ClaimsWindow id))
    (h : execute deps env info msg st = .ok (st', resp)) : st'.claims.lookup (u, id) = some c := by
  have hid : id ≠ st.openWindow := fun he => hs ((hB.shape.isOpen id win hw).2 he)
  by_cases hm : msg.booksClaims = false
  · rw [execute_unbooked hB hm h]
    exact hc
  cases msg with
  | receive sender fromAddr amount hook =>
    obtain ⟨st₁, w, owed, token, closing, hreq, hclose, -⟩ := executeReceive_ok h
    obtain ⟨st₂, hstill, -, hj⟩ := requestWithdrawal_join hreq
    obtain ⟨v, -, -, hjoin, -⟩ := joinWindow_ok hj
    have hopen : st₂.queue.openWindow = st.openWindow := congrArg Queue.openWindow hstill.queue
    have hclaims : st₂.queue.claims = st.claims := congrArg Queue.claims hstill.queue
    rw [(Apart.keeps closeWindowIfOverdue_apart hclose).claims]
    refine (hjoin.join_claims ?_).trans ?_
    · rwa [hopen]
    · rw [hclaims]
      exact hc
  | claimMatured ids =>
    have h : executeClaimMatured deps env info ids st = .ok (st', resp) := h
    unfold executeClaimMatured at h
    simp only [bind_eq_ok, Prod.exists] at h
    obtain ⟨st₁, marked, hmat, acc, hacc, h⟩ := h
    rw [guard_eq_ok, pure_eq_ok, Prod.mk.injEq] at h
    obtain ⟨-, rfl, -⟩ := h
    have hkeep : Keeps st st₁ := Apart.keeps matureDueWindows_apart hmat
    rw [pruneSettledWindows_eq]
    refine (claimLoop_claims hacc ?_).trans ?_
    · -- a claim of the account itself is for windows it names, and not for this one
      rintro rfl hmem
      refine hn ⟨rfl, fun l hl => ?_⟩
      obtain rfl := Option.mem_def.1 hl
      exact hmem
    · dsimp only
      rw [hkeep.claims]
      exact hc
  | _ => exact absurd rfl hm

/-! ## Windows -/

namespace UnbondWindow

/-- Closed for good, and until when. -/
theorem Life.closed {now : ℕ} (h : win.Life now win') (hs : win.state ≠ .open) :
    win'.state ≠ .open ∧ win'.maturesAt = win.maturesAt := by
  cases h with
  | joined ho => exact absurd ho hs
  | emptied ho => exact absurd ho hs
  | sent ho => exact absurd ho hs
  | returned => exact ⟨by simp [UnbondWindow.returned], rfl⟩
  | paid hm =>
    refine ⟨?_, maturesAt_paying⟩
    rw [state_paying]
    split
    · simp
    · exact hs

theorem lives_closed {now : ℕ} (h : Relation.ReflTransGen (Life now) win win')
    (hs : win.state ≠ .open) : win'.state ≠ .open ∧ win'.maturesAt = win.maturesAt := by
  induction h with
  | refl => exact ⟨hs, rfl⟩
  | tail _ hl ih =>
    obtain ⟨hs', hm⟩ := hl.closed ih.1
    exact ⟨hs', hm.trans ih.2⟩

/-- A window that has come back is matured until it settles. -/
theorem Aged.back (h : win.Aged win') (hs : win.state = .matured) :
    win'.state = .matured ∨ win'.state = .settled := by
  have hpath := h.path
  rw [hs] at hpath
  generalize win'.state = s at hpath
  induction hpath with
  | refl => exact .inl rfl
  | tail _ hn ih =>
    rcases ih with rfl | rfl <;> cases hn
    exact .inr rfl

end UnbondWindow

/-- **A claim that waits**: it is still there, and its window is an older one of the same
undelegations. -/
structure Waits (u : Addr) (id : ℕ) (c : ClaimRecord) (win : UnbondWindow) (st : Storage) : Prop where
  claim : st.claims.lookup (u, id) = some c
  window : ∃ win', st.windows.lookup id = some win' ∧ win.Aged win' ∧ win'.state ≠ .open ∧
    win'.maturesAt = win.maturesAt

namespace Waits

theorem refl (hc : st.claims.lookup (u, id) = some c) (hw : st.windows.lookup id = some win)
    (hs : win.state ≠ .open) : Waits u id c win st :=
  ⟨hc, win, hw, .refl win, hs, rfl⟩

/-- **Calls leave it waiting**, save those by which the account claims it. -/
theorem call {a : Call} (hW : Waits u id c win st) (hB : Booked st)
    (hs : LstCore.Step st (a, resp) st')
    (hn : ∀ deps env info msg, a = .execute deps env info msg →
      ¬ (info.sender = u ∧ msg.ClaimsWindow id)) : Waits u id c win st' := by
  obtain ⟨win₁, hw₁, haged, hclosed, hmat⟩ := hW.window
  refine ⟨?_, ?_⟩
  · cases a with
    | execute deps env info msg =>
      exact execute_waits hB hw₁ hclosed hW.claim (hn deps env info msg rfl) hs
    | migrate =>
      rw [(Apart.keeps migrate_apart hs).claims]
      exact hW.claim
  · obtain ⟨win₂, hw₂, hlives⟩ := hB.step_lives hs hw₁
    obtain ⟨win₂', hw₂', haged₂⟩ := hB.step_aged hs hw₁
    obtain rfl : win₂' = win₂ := Option.some.inj (hw₂'.symm.trans hw₂)
    refine ⟨win₂', hw₂, haged.trans haged₂, ?_⟩
    rcases hlives with rfl | ⟨now, -, hlives⟩
    · exact ⟨hclosed, hmat⟩
    · obtain ⟨hs₂, hm₂⟩ := UnbondWindow.lives_closed hlives hclosed
      exact ⟨hs₂, hm₂.trans hmat⟩

/-- **So do transactions**, and whatever else happens to the chain. -/
theorem step (hW : Waits u id c win w.store) (hB : Booked w.store) (hs : w.step e = some w')
    (hn : OnTx (fun _ t => ¬ (t.info.sender = u ∧ t.msg.ClaimsWindow id)) w e) :
    Waits u id c win w'.store := by
  cases e with
  | tx t =>
    obtain ⟨b, store, resp, till, -, he, -, rfl⟩ := World.tx_ok hs
    refine hW.call hB (a := .execute (w.deps t.view b) w.env t.info t.msg) he ?_
    rintro _ _ _ _ hcall
    cases hcall
    exact hn
  | migrate =>
    obtain ⟨resp, hm, -⟩ := World.migrate_step hs
    exact hW.call hB (a := .migrate) hm (by simp)
  | inflow amount =>
    obtain ⟨b, -, rfl⟩ := World.inflow_step hs
    exact hW
  | credit id amount =>
    obtain ⟨r, b, -, -, -, -, rfl⟩ := World.credit_ok hs
    exact hW
  | time now =>
    obtain ⟨-, -, rfl⟩ := World.time_step hs
    exact hW

end Waits

/-! ## Being paid -/

/-- A claim that is worth something keeps its window from settling. -/
theorem Booked.unsettled (hB : Booked st) (hw : st.windows.lookup id = some win)
    (hc : st.claims.lookup (u, id) = some c) (hu : c.claimed = false) (hpos : 0 < worth win c) :
    win.state ≠ .settled := by
  intro hs
  have hle := hB.claims.worth_le_outstanding hw hc hu
  have hok := hB.shape.ok id win hw
  obtain ⟨hreal, -⟩ := hok.realised_some (.inr hs)
  unfold UnbondWindow.OK at hok
  rw [hs] at hok
  obtain ⟨r, hr, -, hrc⟩ := hok
  have hpayable : win.payable = r := Option.some.inj (hreal.symm.trans hr)
  have := Word.le_def.1 hrc
  rw [hpayable] at hle
  omega

/-- What a claim against a single matured window pays. -/
theorem Marking.payout_eq {balance : Uint128} {rets : List (ℕ × Uint128)}
    (hM : Marking w.now u32Max balance w.store st₁ rets) (hw : st₁.windows.lookup id = some win)
    (hs : win.state = .matured) (hc : w.store.claims.lookup (u, id) = some c) (hu : c.claimed = false)
    (hsend : t.info.sender = u) (hmsg : t.msg = .claimMatured (some [id])) :
    t.payout st₁ = worth win c := by
  have hc₁ : st₁.queue.claims.lookup (u, id) = some c := by
    rw [hM.queue_eq]
    exact hc
  have hfree : ¬ ∃ i ∈ [id], st₁.queue.blocked u i := by
    rintro ⟨i, hi, hbl⟩
    obtain rfl := List.mem_singleton.1 hi
    exact Queue.not_blocked hw (by simp [hs]) hbl
  have hnamed : t.named st₁ = [id] := by
    unfold Tx.named
    rw [hmsg]
    rfl
  unfold Tx.payout Queue.payout
  rw [hnamed, hsend, if_neg hfree, List.toFinset_cons, List.toFinset_nil, insert_empty_eq, Finset.sum_singleton,
    Queue.dueTo_of_matured hc₁ hu hw hs]

/-- A claim that is worth something is paid. -/
theorem Solvent.sends_eq (hsol : Solvent w) {rets : List (ℕ × Uint128)}
    (hM : Marking w.now u32Max w.balance w.store st₁ rets)
    (ht : t.Claims w.store.config.bondedDenom) (hpos : 0 < t.payout st₁) :
    ∃ w', w.tx t = some w' ∧ w.sends t t.info.sender = t.payout st₁ := by
  rcases claim_tx hsol hM ht with ⟨-, hz⟩ | ⟨w', paid, hist, htx, -, hsends, -⟩
  · omega
  · refine ⟨w', htx, ?_⟩
    rw [hsends, if_pos rfl]

/-- **Waiting costs nothing.** Take an unpaid claim, worth something, against a window that has come
back. Whatever happens to the chain meanwhile, save that the account claims it, a claim of that window
then pays what it was worth at first. -/
theorem waiting_costs_nothing (hr : World.Reaches World.step w) (hu : c.claimed = false)
    (hc : w.store.claims.lookup (u, id) = some c) (hw : w.store.windows.lookup id = some win)
    (hs : win.state = .matured) (hpos : 0 < worth win c)
    (hrun : Run (Guarded (Next World.step)
      (OnTx fun _ t => ¬ (t.info.sender = u ∧ t.msg.ClaimsWindow id))) w h w')
    (ht : t.Claims w'.store.config.bondedDenom) (hsend : t.info.sender = u)
    (hmsg : t.msg = .claimMatured (some [id])) :
    ∃ w'', w'.tx t = some w'' ∧ w'.sends t u = worth win c := by
  have hsol : Solvent w := hr.inv (fun _ hf => hf.solvent) fun _ _ _ hP hs => hP.step hs
  obtain ⟨hsol', hW⟩ : Solvent w' ∧ Waits u id c win w'.store := by
    refine hrun.inv (P := fun w => Solvent w ∧ Waits u id c win w.store)
      ⟨hsol, .refl hc hw (by simp [hs])⟩ ?_
    rintro w e w' ⟨hsol, hW⟩ ⟨hstep, hn⟩
    exact ⟨hsol.step hstep, hW.step hsol.booked hstep hn⟩
  obtain ⟨win', hw', haged, -, -⟩ := hW.window
  -- the window is worth to the claim what it was
  obtain ⟨hreal, -⟩ := (hsol.booked.shape.ok id win hw).realised_some (.inl hs)
  have hpayable : win'.payable = win.payable := by
    rw [UnbondWindow.payable, haged.realised _ hreal, Option.getD_some]
  have howed : win'.scrtOwed = win.scrtOwed := (haged.frozen (by simp [hs])).1
  have hworth : worth win' c = worth win c := Queue.worth_congr howed hpayable
  have hs' : win'.state = .matured := by
    refine (haged.back hs).resolve_right (hsol'.booked.unsettled hw' hW.claim hu ?_)
    rwa [hworth]
  obtain ⟨st₁, rets, hM⟩ := hsol'.exists_marking
  obtain ⟨win₁, hw₁, hs₁, -, hsame⟩ := hM.matured hsol'.slotted hsol'.booked hw' (.inl hs')
  obtain rfl := hsame hs'
  have hpay := hM.payout_eq hw₁ hs₁ hW.claim hu hsend hmsg
  rw [hworth] at hpay
  obtain ⟨w'', htx, hsends⟩ := hsol'.sends_eq hM ht (by rwa [hpay])
  rw [hsend, hpay] at hsends
  exact ⟨w'', htx, hsends⟩

set_option maxRecDepth 10000 in
/-- A window of 60 SCRT comes back with 30. The other account claims its part, and then the user is
paid what the claim was worth before. -/
theorem waiting_costs_nothing_short : ∃ w w' : World, ∃ win,
    w.store.windows.lookup 0 = some win ∧
    worth win ⟨0, Uint128.new 40000000, Uint128.new 40000000, false⟩ = 20000000 ∧
    w.tx devOtherClaim = some w' ∧
    ∃ w'', w'.tx (devClaimTx "user" [] (some [0])) = some w'' ∧
      w'.sends (devClaimTx "user" [] (some [0])) "user" = 20000000 := by
  have hrun : ((devShort ++ [devCollect]).foldlM World.step devWorld).map (fun w =>
      (w.store.claims.lookup ("user", 0), (w.store.windows.lookup 0).map fun win =>
        (win.state, worth win ⟨0, Uint128.new 40000000, Uint128.new 40000000, false⟩),
        (w.tx devOtherClaim).isSome)) =
      some (some ⟨0, Uint128.new 40000000, Uint128.new 40000000, false⟩,
        some (.matured, 20000000), true) := by decide +kernel
  obtain ⟨w, hw, hs⟩ := Option.map_eq_some_iff.1 hrun
  simp only [Prod.mk.injEq] at hs
  obtain ⟨hc, hwin, hother⟩ := hs
  obtain ⟨win, hwin, hs⟩ := Option.map_eq_some_iff.1 hwin
  obtain ⟨hstate, hworth⟩ := Prod.mk.inj hs
  obtain ⟨w', hw'⟩ := Option.isSome_iff_exists.1 hother
  have hrest : Run (Guarded (Next World.step)
      (OnTx fun _ t => ¬ (t.info.sender = "user" ∧ t.msg.ClaimsWindow 0))) w [.tx devOtherClaim] w' :=
    .single ⟨hw', by simp [OnTx, devOtherClaim, devClaimTx]⟩
  obtain ⟨w'', htx, hsends⟩ := waiting_costs_nothing (t := devClaimTx "user" [] (some [0]))
    ⟨_, World.along_replay devWorld_fresh hw⟩ rfl hc hwin hstate (by omega) hrest
    ⟨⟨_, rfl⟩, rfl⟩ rfl rfl
  rw [hworth] at hsends
  exact ⟨w, w', win, hwin, hworth, hw', w'', htx, hsends⟩

/-! ## Being paid in full -/

/-- What is covered is returned in full. -/
theorem Marking.whole {rets : List (ℕ × Uint128)}
    (hM : Marking w.now u32Max w.balance w.store st₁ rets)
    (hcov : w.store.totals.scrtOwedMatured.val + ((rets.map (·.1)).map (owedIn w.store.windows)).sum ≤
      w.balance.val) {ret : ℕ × Uint128} (hr : ret ∈ rets) :
    ret.2.val = owedIn w.store.windows ret.1 := by
  have hamounts := hM.amounts
  rw [(pour_eq_self _ _).2 (by omega), List.map_map] at hamounts
  exact List.map_inj_left.1 hamounts ret hr

/-- In a window that came back in full a claim is worth what it is owed. -/
theorem worth_whole (hreal : win.payable = win.scrtOwed) (c : ClaimRecord) :
    worth win c = c.scrtOwed.val := by
  rw [worth, hreal, share_self]

/-- What has been credited in full is returned in full. -/
theorem Settling.returned (h : Settling w) {rets : List (ℕ × Uint128)}
    (hM : Marking w.now u32Max w.balance w.store st₁ rets) (hw : w.store.windows.lookup id = some win)
    (hs : win.state = .unbonding) (hw₁ : st₁.windows.lookup id = some win') (hs' : win'.state = .matured)
    (hmsg : t.msg = .claimMatured (some [id])) (ht : t.Claims w.store.config.bondedDenom)
    (hc : w.Credited t) : win'.payable = win'.scrtOwed := by
  have hB := h.filed.solvent.booked
  have hids : rets.map (·.1) = w.marks t := by
    unfold World.marks
    rw [hmsg]
    exact hM.due
  have hcov : w.Covers t := h.full.covers h.filed h.funded hc
  unfold World.Covers at hcov
  rw [ht.2, Nat.add_zero, ← hids] at hcov
  by_cases hid : id ∈ rets.map (·.1)
  · obtain ⟨ret, hret, rfl⟩ := List.mem_map.1 hid
    obtain ⟨v, hv, -, -, -, hv'⟩ := hM.lookup_of_mem hB hret
    obtain rfl : v = win := Option.some.inj (hv.symm.trans hw)
    obtain rfl : win' = v.returned ret.2 := Option.some.inj (hw₁.symm.trans hv')
    have hfull := hM.whole hcov hret
    rw [owedIn_eq hv] at hfull
    exact Word.ext hfull
  · rw [hM.lookup_of_not_mem hid, hw] at hw₁
    cases hw₁
    rw [hs] at hs'
    cases hs'

/-- **Paid in full.** Where everything that comes back is credited in full, and no window is marked
before its own has been: an unpaid claim against a window in flight, whatever happens meanwhile save
that the account claims it, pays all that it is owed at any time from the time its window matures. -/
theorem paid_in_full {w₀ : World} {h₀ : List Event} (hf : w₀.Fresh)
    (hr : Run (Guarded (Next World.step) InFull) w₀ h₀ w) (hu : c.claimed = false)
    (hc : w.store.claims.lookup (u, id) = some c) (hw : w.store.windows.lookup id = some win)
    (hs : win.state = .unbonding) (hpos : c.scrtOwed ≠ 0)
    (hrun : Run (Guarded (Guarded (Next World.step) InFull)
      (OnTx fun _ t => ¬ (t.info.sender = u ∧ t.msg.ClaimsWindow id))) w h w')
    (hdue : win.maturesAt ≤ w'.now)
    (ht : t.Claims w'.store.config.bondedDenom) (hsend : t.info.sender = u)
    (hmsg : t.msg = .claimMatured (some [id])) (hcred : w'.Credited t) :
    ∃ w'', w'.tx t = some w'' ∧ w'.sends t u = c.scrtOwed.val := by
  obtain ⟨hset, hwhole⟩ : Settling w ∧ w.Whole :=
    hr.inv (P := fun w => Settling w ∧ w.Whole) ⟨hf.settling, hf.whole⟩
      fun _ _ _ hI hs => ⟨hI.1.step hs.1 hs.2, hI.1.whole hI.2 hs.1 hs.2⟩
  obtain ⟨hcur, hwhole', hW⟩ : Settling w' ∧ w'.Whole ∧ Waits u id c win w'.store := by
    refine hrun.inv (P := fun w => Settling w ∧ w.Whole ∧ Waits u id c win w.store)
      ⟨hset, hwhole, .refl hc hw (by simp [hs])⟩ ?_
    rintro w e w' ⟨hcur, hwhole, hW⟩ ⟨⟨hstep, hin⟩, hn⟩
    exact ⟨hcur.step hstep hin, hcur.whole hwhole hstep hin,
      hW.step hcur.filed.solvent.booked hstep hn⟩
  have hsol := hcur.filed.solvent
  obtain ⟨win', hw', haged, hclosed, hmat⟩ := hW.window
  have howed : win'.scrtOwed = win.scrtOwed := (haged.frozen (by simp [hs])).1
  have hz : win'.scrtOwed ≠ 0 := by
    rw [howed]
    exact (hset.filed.solvent.booked.shape.ok id win hw).owed_ne_zero (.inl hs)
  -- a window that has come back has all it owes, and one that has not is due
  have hback : win'.state = .matured ∨ win'.state = .settled → worth win' c = c.scrtOwed.val := by
    intro hb
    have hreal := hwhole' id win' hw' hb hz
    refine worth_whole ?_ c
    rw [UnbondWindow.payable, hreal, Option.getD_some]
  have hready : win'.state = .matured ∨ win'.state = .unbonding ∧ win'.maturesAt ≤ w'.now := by
    cases hstate : win'.state with
    | «open» => exact absurd hstate hclosed
    | unbonding => exact .inr ⟨rfl, hmat ▸ hdue⟩
    | matured => exact .inl rfl
    | settled =>
      have hpos' : 0 < worth win' c := by
        rw [hback (.inr hstate)]
        exact Nat.pos_of_ne_zero fun hz => hpos (Word.eq_zero_iff.2 hz)
      exact absurd hstate (hsol.booked.unsettled hw' hW.claim hu hpos')
  obtain ⟨st₁, rets, hM⟩ := hsol.exists_marking
  obtain ⟨win₁, hw₁, hs₁, howed₁, hsame⟩ := hM.matured hsol.slotted hsol.booked hw' hready
  have hworth : worth win₁ c = c.scrtOwed.val := by
    rcases hready with hm | ⟨hub, -⟩
    · rw [hsame hm]
      exact hback (.inl hm)
    · exact worth_whole (hcur.returned hM hw' hub hw₁ hs₁ hmsg ht hcred) c
  have hpay := hM.payout_eq hw₁ hs₁ hW.claim hu hsend hmsg
  rw [hworth] at hpay
  obtain ⟨w'', htx, hsends⟩ := hsol.sends_eq hM ht (by
    rw [hpay]
    exact Nat.pos_of_ne_zero fun hz => hpos (Word.eq_zero_iff.2 hz))
  rw [hsend, hpay] at hsends
  exact ⟨w'', htx, hsends⟩

/-- The user's claim of 40 SCRT against the first window, and where the window stands. -/
def devAwaited (w : World) : Option ClaimRecord × Option (WindowState × Bool) :=
  (w.store.claims.lookup ("user", 0), (w.store.windows.lookup 0).map fun win =>
    (win.state, decide (win.maturesAt ≤ devStart + 26 * 86400)))

theorem devAwaited_ok {w : World} {c : ClaimRecord}
    (h : devAwaited w = (some c, some (.unbonding, true))) :
    w.store.claims.lookup ("user", 0) = some c ∧ ∃ win, w.store.windows.lookup 0 = some win ∧
      win.state = .unbonding ∧ win.maturesAt ≤ devStart + 26 * 86400 := by
  obtain ⟨hc, hwin⟩ := Prod.mk.inj h
  obtain ⟨win, hwin, hs⟩ := Option.map_eq_some_iff.1 hwin
  obtain ⟨hstate, hdue⟩ := Prod.mk.inj hs
  exact ⟨hc, win, hwin, hstate, of_decide_eq_true hdue⟩

/-- Neither a keeper's collection nor the time claims anything for the user. -/
theorem devCollect_free {w : World} {now : ℕ} {e : Event} (he : e ∈ [devCollect, .time now]) :
    OnTx (fun _ t => ¬ (t.info.sender = "user" ∧ t.msg.ClaimsWindow 0)) w e := by
  rcases List.mem_cons.1 he with rfl | he
  · simp [OnTx, devCollect, devTx]
  · obtain rfl := List.mem_singleton.1 he
    trivial

set_option maxRecDepth 10000 in
/-- The user's window of 40 SCRT matures, and the keeper collects it before the user claims: on a chain
that credits at once, and on one that credits as the block ends, in the block that follows. -/
theorem paid_in_full_collected :
    (∃ w w' : World, World.Reaches promptStep w ∧ w.store.claims.lookup ("user", 0) =
        some ⟨0, Uint128.new 40000000, Uint128.new 40000000, false⟩ ∧
      [Event.time (devStart + 26 * 86400), devCollect].foldlM promptStep w = some w' ∧
      ∃ w'', w'.tx (devClaimTx "user" [] (some [0])) = some w'' ∧
        w'.sends (devClaimTx "user" [] (some [0])) "user" = 40000000) ∧
    ∃ w w' : World, World.Reaches blockStep w ∧ w.store.claims.lookup ("user", 0) =
        some ⟨0, Uint128.new 40000000, Uint128.new 40000000, false⟩ ∧
      Run (Next blockStep) w [devCollect, .time (devStart + 26 * 86400 + 6)] w' ∧
      ∃ w'', w'.tx (devClaimTx "user" [] (some [0])) = some w'' ∧
        w'.sends (devClaimTx "user" [] (some [0])) "user" = 40000000 := by
  have hprompt : (devClose.foldlM promptStep devWorld).map (fun w => (devAwaited w,
      ([Event.time (devStart + 26 * 86400), devCollect].foldlM promptStep w).map (·.now))) =
      some ((some ⟨0, Uint128.new 40000000, Uint128.new 40000000, false⟩, some (.unbonding, true)),
        some (devStart + 26 * 86400)) := by decide +kernel
  have hblock : ((devClose ++ [Event.time (devStart + 26 * 86400)]).foldlM
      (checked blockStep (OnTx Credited)) devWorld).map (fun w : World => (devAwaited w,
      ([Event.time (devStart + 26 * 86400 + 6), devCollect].foldlM
        (checked blockStep (OnTx Credited)) w).map fun w : World => (w.now,
          decide (w.Credited (devClaimTx "user" [] (some [0])))))) =
      some ((some ⟨0, Uint128.new 40000000, Uint128.new 40000000, false⟩, some (.unbonding, true)),
        some (devStart + 26 * 86400 + 6, true)) := by decide +kernel
  constructor
  · obtain ⟨w, hw, hs⟩ := Option.map_eq_some_iff.1 hprompt
    obtain ⟨hpromised, hrest⟩ := Prod.mk.inj hs
    obtain ⟨hc, win, hwin, hstate, hdue⟩ := devAwaited_ok hpromised
    obtain ⟨w', hw', hnow⟩ := Option.map_eq_some_iff.1 hrest
    have hr : World.Reaches promptStep w := ⟨_, World.along_replay devWorld_fresh hw⟩
    obtain ⟨h₀, hr₀⟩ := devWorld_fresh.current.inFull (P := fun _ _ => True)
      ((Run.of_foldlM hw).mono fun _ _ _ hs => ⟨hs, onTx_true⟩)
    have hrun : Run (Guarded (Next promptStep)
        (OnTx fun _ t => ¬ (t.info.sender = "user" ∧ t.msg.ClaimsWindow 0))) w
        [devCollect, .time (devStart + 26 * 86400)] w' :=
      (Run.of_foldlM hw').mono_of_mem fun _ _ _ he hs => ⟨hs, devCollect_free he⟩
    obtain ⟨h', hrun'⟩ := hr.current.inFull hrun
    have hcur' : Current w' := hrun.inv hr.current fun _ _ _ hc hs => hc.promptStep hs.1
    obtain ⟨w'', htx, hsends⟩ := paid_in_full (t := devClaimTx "user" [] (some [0])) devWorld_fresh
      (hr₀.mono fun _ _ _ hs => hs.1) rfl hc hwin hstate (by decide) hrun'
      (hnow ▸ hdue) ⟨⟨_, rfl⟩, rfl⟩ rfl rfl (hcur'.marks_credited _)
    exact ⟨w, w', hr, hc, hw', w'', htx, hsends⟩
  · obtain ⟨w, hw, hs⟩ := Option.map_eq_some_iff.1 hblock
    obtain ⟨hpromised, hrest⟩ := Prod.mk.inj hs
    obtain ⟨hc, win, hwin, hstate, hdue⟩ := devAwaited_ok hpromised
    obtain ⟨w', hw', hs⟩ := Option.map_eq_some_iff.1 hrest
    obtain ⟨hnow, hcred⟩ := Prod.mk.inj hs
    obtain ⟨h₀, hr₀⟩ := blockStep_inFull (P := fun _ _ => True)
      ((Run.of_checked hw).mono fun _ _ _ hs => ⟨hs.1, hs.2.and onTx_true⟩)
    obtain ⟨h', hrun'⟩ := blockStep_inFull
      (P := fun _ t => ¬ (t.info.sender = "user" ∧ t.msg.ClaimsWindow 0))
      ((Run.of_checked hw').mono_of_mem fun _ _ _ he hs => ⟨hs.1, hs.2.and (devCollect_free he)⟩)
    obtain ⟨w'', htx, hsends⟩ := paid_in_full (t := devClaimTx "user" [] (some [0])) devWorld_fresh
      (hr₀.mono fun _ _ _ hs => hs.1) rfl hc hwin hstate (by decide) hrun'
      (by omega) ⟨⟨_, rfl⟩, rfl⟩ rfl rfl
      (of_decide_eq_true hcred)
    exact ⟨w, w', ⟨_, devWorld, devWorld_fresh, (Run.of_checked hw).mono fun _ _ _ hs => hs.1⟩, hc,
      (Run.of_checked hw').mono fun _ _ _ hs => hs.1, w'', htx, hsends⟩

end LstCore
