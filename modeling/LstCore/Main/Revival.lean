import LstCore.Main.SweepCoverage
import LstCore.Proof.Config
import LstCore.Proof.Passes
import LstCore.Proof.Posts

/-!
# A pass revives a stale cache

Syncs and compounds share one cursor, and so do all who send them: a page either stamps the cache or
moves the cursor on, and nothing else moves it. A set has no more validators than a task has turns. So
where a pass finds the cache stale, its compound task stamps it or fails, and then the sync it falls back
on stamps it or fails (`pass_revives`).
-/

namespace LstCore

open Lib

variable {deps : Deps} {env : Env} {info : MessageInfo} {msg : ExecuteMsg} {resp : Response}
  {st st' : Storage}

/-! ## The stamp -/

theorem Undelegated.stamp {w : UnbondWindow} {vs : List ValidatorEntry} {ts : TotalsCache}
    {used : List String} {messages : List CosmosMsg} (h : Undelegated st w vs ts used messages) :
    ts.lastSyncTime = st.totals.lastSyncTime := by
  cases h with
  | nothing => rfl
  | issued => rfl

theorem overdue_stamp {messages : List CosmosMsg}
    (h : closeWindowIfOverdue env st = .ok (st', messages)) :
    st'.totals.lastSyncTime = st.totals.lastSyncTime := by
  rcases closeWindowIfOverdue_ok h with ⟨rfl, -⟩ | ⟨w, closing, hw, hopen, hdue, hc, -⟩
  · rfl
  · obtain ⟨used, hund, -⟩ := closeOpenWindow_ok hw hopen hdue hc
    exact hund.stamp

/-- **A message stamps the cache with its time**, or leaves the stamp it has. -/
theorem execute_stamp (hB : Booked st) (h : execute deps env info msg st = .ok (st', resp)) :
    st'.totals.lastSyncTime = st.totals.lastSyncTime ∨ st'.totals.lastSyncTime = env.time := by
  cases msg with
  | bootstrap tokenAddress tokenCodeHash =>
    obtain ⟨s, rfl, -⟩ := executeBootstrap_ok h
    exact .inr rfl
  | deposit =>
    obtain ⟨st₁, deposit, shares, messages, closing, ha, hc, -⟩ := executeDeposit_ok h
    obtain ⟨d, rfl, -⟩ := acceptDeposit_ok ha
    obtain ⟨-, -, tb, pr, ts, -, -, -, hpriced⟩ := refreshTotals_eq_ok.1 d.refreshed
    refine .inr ((overdue_stamp hc).trans ?_)
    show d.priced.totals.lastSyncTime = env.time
    rw [hpriced]
  | receive sender fromAddr amount hook =>
    obtain ⟨st₁, w, owed, token, closing, ha, hc, -⟩ := executeReceive_ok h
    obtain ⟨st₂, -, -, -, -, hprice, hj⟩ := requestWithdrawal_ok ha
    obtain ⟨pool, hpool, -⟩ := priceWithdrawal_eq_ok.1 hprice
    obtain ⟨-, -, tb, pr, ts, -, -, -, hpriced⟩ :=
      refreshTotals_eq_ok.1 (pricingPool_eq_ok.1 hpool).1
    obtain ⟨u, oo, -, -, -, hst₁⟩ := joinWindow_ok hj
    refine .inr ((overdue_stamp hc).trans ?_)
    rw [hst₁]
    show st₂.totals.lastSyncTime = env.time
    rw [hpriced]
  | claimMatured windowIds =>
    obtain ⟨balance, rets, st₁, paid, hist, -, hM, -, hP, -, -⟩ := executeClaimMatured_ok hB h
    rw [hP.frame, hM.frame]
    exact .inl rfl
  | advanceWindow =>
    obtain ⟨w, closing, hw, hopen, hdue, hc, -⟩ := executeAdvanceWindow_ok h
    obtain ⟨used, hund, -⟩ := closeOpenWindow_ok hw hopen hdue hc
    exact .inl hund.stamp
  | collectMatured limit =>
    obtain ⟨ids, hmat, -⟩ := executeCollectMatured_ok h
    obtain ⟨_, _, -, hM, -⟩ := matureDueWindows_ok hB hmat
    rw [hM.frame]
    exact .inl rfl
  | compound limit =>
    obtain ⟨_, _, _, done, -, ht⟩ := executeCompound_stamp h
    rw [ht]
    cases done
    · exact .inl rfl
    · exact .inr rfl
  | sync limit =>
    obtain ⟨_, _, done, -, ht⟩ := executeSync_stamp h
    rw [ht]
    cases done
    · exact .inl rfl
    · exact .inr rfl
  | setPaused paused =>
    obtain ⟨rfl, -⟩ := executeSetPaused_ok h
    exact .inl rfl
  | manager m =>
    rcases executeManager_ok h with ⟨_, -, -, rfl, -⟩ | ⟨_, -, -, rfl, -⟩ | ⟨_, _, -, -, rfl, -⟩ <;>
      exact .inl rfl

/-- **A page** stamps the cache, or it moves the cursor on within the set. -/
theorem Step.page {e : Call × Response} (hs : Step st e st') (hp : e.1.pages = true)
    (hlt : st.syncCursor < st.validators.length) :
    (∃ env deps info msg, e.1 = .execute deps env info msg ∧ st'.totals.lastSyncTime = env.time) ∨
      st'.totals.lastSyncTime = st.totals.lastSyncTime ∧ st.syncCursor < st'.syncCursor := by
  obtain ⟨call, resp⟩ := e
  unfold Call.pages at hp
  split at hp
  · rename_i deps env info limit hcall
    obtain rfl : call = _ := hcall
    have he : executeSync deps env limit st = .ok (st', resp) := hs
    obtain ⟨_, _, done, hd, ht⟩ := executeSync_stamp he
    obtain ⟨s, rfl, -, hans⟩ := executeSync_ok he
    rw [hd, Option.some.injEq, Synced.answer, ExecuteAnswer.sync.injEq] at hans
    cases done with
    | true => exact .inl ⟨_, _, _, _, rfl, ht⟩
    | false =>
      have hend : ¬ (syncedSet deps env st s.stop).length ≤ s.stop := of_decide_eq_false hans.2.2.symm
      have hstop := pageEnd_eq s.stop_eq
      refine .inr ⟨ht, ?_⟩
      simp only [Synced.next, if_neg hend]
      omega
  · rename_i deps env info limit hcall
    obtain rfl : call = _ := hcall
    have he : executeCompound deps env limit st = .ok (st', resp) := hs
    obtain ⟨_, _, _, done, hd, ht⟩ := executeCompound_stamp he
    obtain ⟨c, rfl, -, hans⟩ := executeCompound_ok he
    rw [hd, Option.some.injEq, Compounded.answer, ExecuteAnswer.compound.injEq] at hans
    cases done with
    | true => exact .inl ⟨_, _, _, _, rfl, ht⟩
    | false =>
      have hend : ¬ c.set.length ≤ c.stop := of_decide_eq_false hans.2.2.2.symm
      have hstop := pageEnd_eq c.stop_eq
      refine .inr ⟨ht, ?_⟩
      simp only [Compounded.next, if_neg hend]
      omega
  · cases hp

/-! ## Since a time -/

namespace Blocks

/-- **Since a time** the cache has been stamped; or it has the stamp it had, and so many pages of a
sweep are done. -/
structure Turned (since stamp secs pages : ℕ) (b : Blocks) : Prop where
  past : since ≤ b.now
  secs : b.store.config.params.syncStaleAfterSecs = secs
  turned : since ≤ b.store.totals.lastSyncTime ∨
    b.store.totals.lastSyncTime = stamp ∧ pages ≤ b.store.syncCursor

variable {b b' : Blocks} {since stamp secs pages : ℕ}

namespace Turned

theorem mono {fewer : ℕ} (h : b.Turned since stamp secs pages) (hle : fewer ≤ pages) :
    b.Turned since stamp secs fewer where
  past := h.past
  secs := h.secs
  turned := h.turned.imp_right fun ⟨hs, hp⟩ => ⟨hs, hle.trans hp⟩

/-- **A call**: a page is one more, or it stamps. -/
theorem call {c : Call} (h : b.Turned since stamp secs pages) (hP : b.Paced)
    (hs : b.step (.call c) = some b') :
    b'.Turned since stamp secs (if c.pages = true then pages + 1 else pages) := by
  obtain ⟨store, resp, ht, hc, rfl⟩ := call_ok hs
  have hR := hP.reachable
  have hstep : Step b.store (c, resp) store := hc
  have hstamped : ∀ {t}, t ∈ c.time → store.totals.lastSyncTime = t →
      since ≤ store.totals.lastSyncTime := fun hmem he => by
    rw [he, ht _ hmem]
    exact h.past
  refine ⟨h.past, ?_, ?_⟩
  · show store.config.params.syncStaleAfterSecs = secs
    rw [← h.secs]
    cases c with
    | execute deps env info msg =>
      have he : execute deps env info msg b.store = .ok (store, resp) := hc
      generalize hconfig : store.config = config
      have hre := execute_config hR.booked he
      rw [hconfig] at hre
      cases hre <;> rfl
    | migrate =>
      obtain ⟨rfl, -⟩ := migrate_ok hstep
      rfl
  · show since ≤ store.totals.lastSyncTime ∨ _
    by_cases hp : c.pages = true
    · rw [if_pos hp]
      rcases Step.page hstep hp hR.manned.cursor with ⟨env, deps, info, msg, rfl, he⟩ | ⟨he, hlt⟩
      · exact .inl (hstamped rfl he)
      · refine h.turned.imp (fun hle => he ▸ hle) ?_
        rintro ⟨hst, hpg⟩
        exact ⟨he.trans hst, by show pages + 1 ≤ store.syncCursor; omega⟩
    · rw [if_neg hp]
      obtain ⟨hcur, -⟩ := Step.unpaged hR hstep (Bool.eq_false_iff.2 hp)
      have hkept : store.totals.lastSyncTime = b.store.totals.lastSyncTime →
          since ≤ store.totals.lastSyncTime ∨
            store.totals.lastSyncTime = stamp ∧ pages ≤ store.syncCursor := fun he => by
        rw [he, hcur]
        exact h.turned
      cases c with
      | execute deps env info msg =>
        have he : execute deps env info msg b.store = .ok (store, resp) := hc
        rcases execute_stamp hR.booked he with hsame | hnow
        · exact hkept hsame
        · exact .inl (hstamped rfl hnow)
      | migrate =>
        obtain ⟨rfl, -⟩ := migrate_ok hstep
        exact hkept rfl

/-- **Whatever others do** leaves the pages that are done. -/
theorem later (h : b.Turned since stamp secs pages) (hP : b.Paced) (hb : b.Later b') :
    b'.Turned since stamp secs pages := by
  refine (hb.inv (P := fun b => b.Turned since stamp secs pages) hP h ?_).2
  intro b e b' hP h hs
  cases e with
  | call c =>
    refine (h.call hP hs).mono ?_
    split
    · exact Nat.le_succ pages
    · exact Nat.le_refl pages
  | next now =>
    unfold Blocks.step at hs
    dsimp only at hs
    split at hs
    · rename_i hnow
      cases hs
      exact ⟨h.past.trans hnow.1, h.secs, h.turned⟩
    · cases hs

/-- A sweep has no more pages than a set can have validators. -/
theorem stamped (h : b.Turned since stamp secs maxValidators) (hP : b.Paced) :
    since ≤ b.store.totals.lastSyncTime := by
  refine h.turned.resolve_right fun ⟨_, hpages⟩ => ?_
  have hS := hP.reachable.slotted
  have hlt := hP.reachable.manned.cursor
  have hlen : (addresses b.store.validators).length ≤ maxValidators :=
    (hS.distinct.subperm fun a ha => hS.allowed a ha).length_le.trans hS.few
  rw [addresses_eq, List.length_map] at hlen
  omega

end Turned

end Blocks

/-! ## The tasks -/

namespace Keeper

variable {σ : Type} {client : Outside σ} {chain : σ → Blocks} {config : KeeperConfig} {limit : ℕ}
  {formatRate toFixed : ℕ → String} {s s' : σ} {d d' : Desk σ} {since stamp secs pages : ℕ}
  {state : StateResponse}

theorem queryState_unattended (h : queryState deps env st = .ok state) :
    state.isUnattended =
      st.totals.isUnattended env.time st.config.params.syncStaleAfterSecs := by
  unfold queryState at h
  simp only [bind_eq_ok, pure_eq_ok] at h
  obtain ⟨pool, -, rate, -, owed, -, rfl⟩ := h
  rfl

/-- **A page that goes through** is one more. -/
theorem Follows.page_turned (hf : Follows client chain)
    (hpage : ∀ deps env info, (Call.execute deps env info msg).pages = true)
    (h : client.execute msg s = (s', .ok ())) (hP : (chain s).Paced)
    (hT : (chain s).Turned since stamp secs pages) :
    (chain s').Turned since stamp secs (pages + 1) := by
  obtain ⟨b, b', deps, env, info, hb, hcall, hb'⟩ := hf.called h
  have hP₁ := hb.paced hP
  have hT' := (hT.later hP hb).call hP₁ hcall
  rw [if_pos (hpage deps env info)] at hT'
  exact hT'.later (hP₁.call hcall) hb'

/-- **A look that finds the cache attended** finds it stamped, where it was stale at first. -/
theorem Follows.attended (hf : Follows client chain) (h : client.look s = (s', .ok state))
    (hP : (chain s).Paced) (hT : (chain s).Turned since stamp secs pages)
    (hstale : stamp + secs < since) (ha : state.isUnattended = false) :
    since ≤ (chain s').store.totals.lastSyncTime := by
  obtain ⟨deps, env, hnow, hq⟩ := hf.shown h
  have hT' := hT.later hP (hf.looked.ok h)
  refine hT'.turned.resolve_right fun ⟨hst, _⟩ => ?_
  rw [queryState_unattended hq, TotalsCache.isUnattended, decide_eq_false_iff_not, hnow, hT'.secs,
    hst] at ha
  have := hT'.past
  omega

/-- A task that has not failed has turned all pages there can be, or has seen a stamp. -/
def Sweep.turned : Sweep → ℕ
  | .failed _ _ => 0
  | _ => maxValidators

def Refresh.turned : Refresh → ℕ
  | .failed _ _ => 0
  | _ => maxValidators

theorem compoundLoop_turned (hf : Follows client chain) (hstale : stamp + secs < since) :
    ∀ {left pages calls : ℕ} {s s' : σ} {sweep : Sweep}, pages + left = maxValidators →
      (chain s).Paced → (chain s).Turned since stamp secs pages →
      compoundLoop client.toClient limit left calls s = (s', .ok sweep) →
      (chain s').Turned since stamp secs sweep.turned := by
  intro left
  -- on the turns left: each that does not end the task hands on a page more
  induction left with
  | zero =>
    intro pages calls s s' sweep hsum hP hT h
    obtain ⟨rfl, he⟩ := Prod.mk.inj h
    obtain rfl := Except.ok.inj he
    exact hT.mono hsum.ge
  | succ left ih =>
    intro pages calls s s' sweep hsum hP hT h
    unfold compoundLoop at h
    split at h
    · rename_i t error hsend
      obtain ⟨rfl, he⟩ := Prod.mk.inj h
      obtain rfl := Except.ok.inj he
      exact (hT.later hP (hf.executed hsend)).mono (Nat.zero_le _)
    rename_i t hsend
    have hPt := (hf.executed hsend).paced hP
    have hTt := hf.page_turned (fun _ _ _ => rfl) hsend hP hT
    split at h
    · cases h
    rename_i u state hlook
    have hlook : client.look t = (u, .ok state) := hlook
    have htu := hf.looked.ok hlook
    split at h
    · rename_i hswept
      obtain ⟨rfl, he⟩ := Prod.mk.inj h
      obtain rfl := Except.ok.inj he
      unfold looksSwept at hswept
      simp only [Bool.and_eq_true, Bool.not_eq_true'] at hswept
      have hTu := hTt.later hPt htu
      exact ⟨hTu.past, hTu.secs, .inl (hf.attended hlook hPt hTt hstale hswept.1)⟩
    · exact ih (by omega) (htu.paced hPt) (hTt.later hPt htu) h

theorem syncLoop_turned (hf : Follows client chain) (hstale : stamp + secs < since) :
    ∀ {left pages calls : ℕ} {s s' : σ} {refresh : Refresh}, pages + left = maxValidators →
      (chain s).Paced → (chain s).Turned since stamp secs pages →
      syncLoop client.toClient limit left calls s = (s', .ok refresh) →
      (chain s').Turned since stamp secs refresh.turned := by
  intro left
  induction left with
  | zero =>
    intro pages calls s s' refresh hsum hP hT h
    obtain ⟨rfl, he⟩ := Prod.mk.inj h
    obtain rfl := Except.ok.inj he
    exact hT.mono hsum.ge
  | succ left ih =>
    intro pages calls s s' refresh hsum hP hT h
    obtain ⟨t, result, hsend, h⟩ := Act.bind_eq_ok.1 h
    have hsend := send_ok hsend
    rcases result with error | ⟨⟩
    · obtain ⟨rfl, he⟩ := Prod.mk.inj h
      obtain rfl := Except.ok.inj he
      exact (hT.later hP (hf.executed hsend)).mono (Nat.zero_le _)
    · have hPt := (hf.executed hsend).paced hP
      have hTt := hf.page_turned (fun _ _ _ => rfl) hsend hP hT
      obtain ⟨u, state, hlook, h⟩ := Act.bind_eq_ok.1 h
      have htu := hf.looked.ok hlook
      split at h
      · exact ih (by omega) (htu.paced hPt) (hTt.later hPt htu) h
      · rename_i hatt
        obtain ⟨rfl, he⟩ := Prod.mk.inj h
        obtain rfl := Except.ok.inj he
        have hTu := hTt.later hPt htu
        exact ⟨hTu.past, hTu.secs,
          .inl (hf.attended hlook hPt hTt hstale (Bool.eq_false_iff.2 hatt))⟩

/-- A failure says so. -/
theorem failed_outcome (calls : ℕ) (error : String) :
    "failed".toList.isPrefixOf (s!"failed after {calls}: {error}").toList = true := by
  rw [List.isPrefixOf_iff_prefix]
  simp only [String.toList_append, List.append_assoc]
  have hfirst : "failed".toList <+: (toString "failed after ").toList := by decide
  exact hfirst.trans (List.prefix_append _ _)

/-- **The compound task** has turned the pages, or has failed and says so. -/
theorem compoundTask_turned (hf : Follows client chain) (hstale : stamp + secs < since)
    {o : TaskOutcome} (hP : (chain s).Paced) (hT : (chain s).Turned since stamp secs 0)
    (h : compoundTask client.toClient limit s = (s', .ok o)) :
    (chain s').Turned since stamp secs maxValidators ∨
      o.failed = true ∧ (chain s').Turned since stamp secs 0 := by
  obtain ⟨t, sweep, hsweep, h⟩ := Act.bind_eq_ok.1 h
  obtain ⟨rfl, he⟩ := Prod.mk.inj h
  obtain rfl := Except.ok.inj he
  have hturned := compoundLoop_turned hf hstale rfl hP hT hsweep
  cases sweep with
  | failed calls error => exact .inr ⟨failed_outcome calls error, hturned⟩
  | swept calls => exact .inl hturned
  | incomplete calls => exact .inl hturned

/-- **So has the sync task.** -/
theorem sync_turned (hf : Follows client chain) (hstale : stamp + secs < since)
    {o : TaskOutcome} (hP : (chain s).Paced) (hT : (chain s).Turned since stamp secs 0)
    (h : sync client.toClient limit s = (s', .ok o)) :
    (chain s').Turned since stamp secs maxValidators ∨ o.failed = true := by
  obtain ⟨t, before, hlook, h⟩ := Act.bind_eq_ok.1 h
  obtain ⟨u, refresh, hsync, h⟩ := Act.bind_eq_ok.1 h
  obtain ⟨rfl, he⟩ := Prod.mk.inj h
  obtain rfl := Except.ok.inj he
  have hon := hf.looked.ok hlook
  have hturned := syncLoop_turned hf hstale rfl (hon.paced hP) (hT.later hP hon) hsync
  cases refresh with
  | failed calls error => exact .inr (failed_outcome calls error)
  | fresh calls bonded => exact .inl hturned
  | stale calls => exact .inl hturned

/-! ## The pass -/

/-- **A pass revives a stale cache.** Take a pass that has logged that it found the cache stale, whatever
the page limit and whatever others have done to the contract between its questions. It has logged a sync
that failed, or the cache has been stamped since it began. -/
theorem pass_revives (hf : Follows client chain) {es : List BlockEvent}
    (hstart : Blocks.Along es (chain d.world))
    (hpass : pass formatRate toFixed client config d = (d', .ok none)) {lines : List Line}
    (hlog : d'.log = d.log ++ lines)
    (hfound : ∃ f, .finding f ∈ lines ∧ f.check = "freshness" ∧ f.severity ≠ .ok) :
    (∃ o ∈ outcomes lines, o.task = "sync" ∧ o.failed = true) ∨
      (chain d.world).now ≤ (chain d'.world).store.totals.lastSyncTime := by
  obtain ⟨s, time, d₁, findings, d₂, hclock, hchecks, hwindow, hsweep⟩ := pass_ok hpass
  obtain ⟨-, -, hlog₁, u, state, hlook, hon, hfs⟩ := runChecks_ok hf hchecks
  obtain ⟨⟨jobs, hjobs⟩, hon₂⟩ := windowUpkeep_rest hf hwindow
  obtain ⟨-, tasks, htasks, -, -⟩ := sweep_rest hf hsweep
  have hlines : lines = findings.map .finding ++ (jobs.map .outcome ++ tasks.map .outcome) := by
    refine (List.append_right_inj d.log).1 ?_
    rw [← hlog, htasks, hjobs, hlog₁]
    simp only [List.append_assoc]
  -- the finding is one of the checks
  have hstale : foundStale findings = true := by
    obtain ⟨f, hmem, hcheck, hbad⟩ := hfound
    rw [hlines] at hmem
    rcases List.mem_append.1 hmem with hmem | hmem
    · obtain ⟨f', hf', he⟩ := List.mem_map.1 hmem
      obtain rfl := Line.finding.inj he
      exact List.any_eq_true.2 ⟨f', hf', by simp [hcheck, hbad]⟩
    · rw [← List.map_append] at hmem
      obtain ⟨_, -, he⟩ := List.mem_map.1 hmem
      cases he
  rw [hstale] at hfs hsweep
  -- since the look at the state
  have hdu : Onward chain d.world u := (hf.clock.ok hclock).trans (hf.looked.ok hlook)
  have hPu := hdu.paced hstart.paced
  have hsince : (chain d.world).now ≤ (chain u).now := hdu.now_le hstart.paced
  obtain ⟨deps, env, hnow, hq⟩ := hf.shown hlook
  have hold := hfs.trans (queryState_unattended hq) |>.symm
  rw [TotalsCache.isUnattended, decide_eq_true_eq, hnow] at hold
  have hT : (chain u).Turned (chain u).now (chain u).store.totals.lastSyncTime
      (chain u).store.config.params.syncStaleAfterSecs 0 :=
    ⟨Nat.le_refl _, rfl, .inr ⟨rfl, Nat.zero_le _⟩⟩
  have hu₂ : Onward chain u d₂.world := hon.trans hon₂
  have hP₂ := hu₂.paced hPu
  rcases sweep_ok hsweep with ⟨hno, -⟩ | ⟨t, swept, hc, hrest⟩
  · rw [Bool.true_or] at hno
    cases hno
  have hPt := ((compoundTask_onward hf).ok hc).paced hP₂
  rcases compoundTask_turned hf (by omega) hP₂ (hT.later hPu hu₂) hc with hturned | ⟨hfail, hT₀⟩
  · refine .inr (hsince.trans ?_)
    rcases hrest with ⟨-, rfl⟩ | ⟨-, v, synced, hs, rfl⟩
    · exact hturned.stamped hPt
    · have hv := (sync_onward hf).ok hs
      exact (hturned.later hPt hv).stamped (hv.paced hPt)
  · rcases hrest with ⟨hno, -⟩ | ⟨-, v, synced, hs, rfl⟩
    · rw [hfail] at hno
      cases hno
    · rcases sync_turned hf (by omega) hPt hT₀ hs with hturned | hbad
      · exact .inr (hsince.trans (hturned.stamped (((sync_onward hf).ok hs).paced hPt)))
      · refine .inl ⟨synced, mem_outcomes.2 ?_, sync_task hs, hbad⟩
        have hlast : d.log ++ lines = d₂.log ++ [.outcome swept] ++ [.outcome synced] := hlog.symm
        have hd₂ : d₂.log = d.log ++ (findings.map .finding ++ jobs.map .outcome) := by
          rw [hjobs, hlog₁, List.append_assoc]
        rw [hd₂, List.append_assoc, List.append_assoc] at hlast
        rw [List.append_cancel_left hlast]
        simp

set_option maxRecDepth 10000 in
/-- Five days after the deposit that last stamped it the cache is stale, and a pass stamps it. -/
theorem pass_revives_closing : ∃ (b : Blocks) (d' : Desk Blocks), devPass b = (d', .ok none) ∧
    b.store.totals.isUnattended b.now b.store.config.params.syncStaleAfterSecs = true ∧
    b.now ≤ d'.world.store.totals.lastSyncTime := by
  have hrun : (devClosing.foldlM Blocks.step devBlocks).map (fun b =>
      ((devPass b).2.toOption, (devPass b).1.log.head?,
        decide (∃ o ∈ outcomes (devPass b).1.log, o.task = "sync" ∧ o.failed = true),
        b.store.totals.isUnattended b.now b.store.config.params.syncStaleAfterSecs)) =
      some (some none, some (.finding ⟨.alert, "freshness",
        "cached totals are stale — deposits and withdrawals are being refused"⟩), false, true) := by
    decide +kernel
  obtain ⟨b, hb, hs⟩ := Option.map_eq_some_iff.1 hrun
  simp only [Prod.mk.injEq, toOption_eq_some, decide_eq_false_iff_not] at hs
  obtain ⟨hok, hhead, hnosync, hstale⟩ := hs
  have hpass : devPass b = (_, .ok none) := Prod.ext rfl hok
  have hrevived := (pass_revives devOutside_follows (Blocks.along_replay devBlocks_fresh hb) hpass
    (List.nil_append _).symm ⟨_, List.mem_of_mem_head? hhead, rfl, by decide⟩).resolve_left hnosync
  exact ⟨b, _, hpass, hstale, hrevived⟩

end Keeper

end LstCore
