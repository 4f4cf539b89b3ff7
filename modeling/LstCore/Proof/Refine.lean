import LstCore.Proof.Paying
import LstCore.Proof.Upkeep
import LstCore.Spec.Chain

/-!
# Every transaction is a run of the queue

* `Booked.still`, `Booked.join`, `Booked.closing`, `Booked.marking`, `Booked.paying`: each
  part of a transaction keeps the ledger.
* `step_moved`: a call keeps the ledger, and its effect on the queue is a run of moves
  at the call's time that pays each account what the call's messages send it.
* `Reachable.booked`: the ledger holds in every reachable storage.
-/

namespace LstCore

open Lib

variable {deps : Deps} {env : Env} {info : MessageInfo} {st st' st₁ : Storage} {resp : Response}
  {u : Addr}

/-! ## The ledger, part by part -/

theorem Booked.still (hB : Booked st) (h : Still st st') : Booked st' where
  shape := h.queue ▸ hB.shape
  claims := h.queue ▸ hB.claims
  owedOpen := by rw [h.owedOpen, h.queue]; exact hB.owedOpen
  owedUnbonding := by rw [h.owedUnbonding, h.queue]; exact hB.owedUnbonding
  owedMatured := by rw [h.owedMatured, h.queue]; exact hB.owedMatured

theorem Booked.join {fromAddr : String} {amount owed : Uint128} {w : UnbondWindow} (hB : Booked st)
    (h : joinWindow deps fromAddr amount owed st = .ok (st', w)) :
    Booked st' ∧ ∃ u, Queue.Step st.queue (.join u amount owed) st'.queue := by
  obtain ⟨u, oo, -, hstep, hoo, hst⟩ := joinWindow_ok h
  obtain ⟨ho, hu, hm⟩ := Queue.owed_join hstep
  have hto : st'.totals.scrtOwedOpen = oo := by rw [hst]
  have htu : st'.totals.scrtOwedUnbonding = st.totals.scrtOwedUnbonding := by rw [hst]
  have htm : st'.totals.scrtOwedMatured = st.totals.scrtOwedMatured := by rw [hst]
  refine ⟨⟨hB.shape.step hstep, hB.claims.step hB.shape hstep, ?_, ?_, ?_⟩, u, hstep⟩
  · rw [hto, hoo, hB.owedOpen, ho]
  · rw [htu, hB.owedUnbonding, hu]
  · rw [htm, hB.owedMatured, hm]

/-- What the open window owes is exactly what the cache books for it. -/
theorem Booked.open_owed {w : UnbondWindow} (hB : Booked st)
    (hw : st.windows.lookup st.openWindow = some w) : st.totals.scrtOwedOpen.val = w.scrtOwed.val := by
  rw [hB.owedOpen]
  exact Queue.openOwed_eq (q := st.queue) hw

theorem Booked.closing {closing : Closing} {w : UnbondWindow} (hB : Booked st)
    (hw : st.windows.lookup st.openWindow = some w) (hopen : w.state = .open)
    (hdue : w.closesAt ≤ env.time) (h : closeOpenWindow env st = .ok (st', closing)) :
    Booked st' ∧ ∃ m, Queue.Step st.queue m st'.queue ∧ ∀ u, m.payoutTo u = 0 := by
  obtain ⟨used, hund, -, hstep⟩ := closeOpenWindow_ok hw hopen hdue h
  obtain ⟨ho, hu, hm⟩ := Queue.owed_close hB.shape hstep
  have how := hB.open_owed hw
  have hoo : st.queue.openOwed = w.scrtOwed.val := hB.owedOpen ▸ how
  have h1 := hB.owedUnbonding
  have h2 := hB.owedMatured
  refine ⟨⟨hB.shape.step hstep, hB.claims.step hB.shape hstep, ?_, ?_, ?_⟩, _, hstep, fun _ => rfl⟩
  -- either nothing was owed, or what was owed moved from the open windows to those in flight
  all_goals
    generalize st'.validators = vs at hund
    generalize st'.totals = ts at hund
    generalize closing.messages = messages at hund
    cases hund with
    | nothing hz => have := Word.eq_zero_iff.1 hz; omega
    | issued hz hplan hissue hou => simp only [Word.val_satSub]; omega

theorem Booked.marking {now limit : ℕ} {balance : Uint128} {rets : List (ℕ × Uint128)}
    (hB : Booked st) (hM : Marking now limit balance st st' rets) : Booked st' := by
  obtain ⟨ho, hu, hm⟩ := hM.owed hB
  have hSC := Queue.Claims.run hB.shape hB.claims (hM.run hB)
  have hto : st'.totals.scrtOwedOpen = st.totals.scrtOwedOpen := by rw [hM.frame]
  refine ⟨hSC.1, hSC.2, ?_, ?_, ?_⟩
  · rw [hto, hB.owedOpen, ho]
  · rw [hM.owedUnbonding, hB.owedUnbonding]; omega
  · rw [hM.owedMatured, hB.owedMatured, hm]

/-! ## Claiming -/

/-- The storage a claim pays from, as the loop starts. -/
def Storage.claimAcc (st : Storage) : ClaimAcc := ⟨st.windows, st.claims, 0, []⟩

theorem claimAcc_queue (st : Storage) : st.claimAcc.queue st.queue = st.queue := by
  simp [Storage.claimAcc, ClaimAcc.queue, Storage.queue]

theorem pruneSettledWindows_eq (settled : List ℕ) (st : Storage) : pruneSettledWindows settled st =
    { st with activeWindows := st.activeWindows.filter fun id => id ∉ settled } := by
  unfold pruneSettledWindows
  split
  · rename_i h; subst h; simp
  · rfl

/-- What a successful payment of claims did to a storage whose due windows are marked. -/
structure Payment (env : Env) (u : Addr) (ids : List ℕ) (st st' : Storage) (paid : Uint128)
    (hist : List Move) : Prop where
  free : ∀ id ∈ ids, ¬ st.queue.blocked u id
  amount : paid.val = ∑ id ∈ ids.toFinset, st.queue.dueTo u id
  run : Run Queue.Step st.queue hist st'.queue
  toSender : paidTo u hist = paid.val
  toOther : ∀ v ≠ u, paidTo v hist = 0
  isPay : ∀ m ∈ hist, m.isPay
  owedMatured : paid.val ≤ st.totals.scrtOwedMatured.val
  frame : st' = { st with
    windows := st'.windows
    claims := st'.claims
    activeWindows := st'.activeWindows
    totals := { st.totals with scrtOwedMatured := st.totals.scrtOwedMatured.satSub paid } }
  booked : Booked st'

/-- What was paid is no longer owed. -/
theorem Payment.owed_left {env : Env} {u : Addr} {ids : List ℕ} {st st' : Storage} {paid : Uint128}
    {hist : List Move} (hP : Payment env u ids st st' paid hist) :
    st'.totals.scrtOwedMatured.val + paid.val = st.totals.scrtOwedMatured.val := by
  have hle := hP.owedMatured
  rw [hP.frame]
  exact Nat.sub_add_cancel hle

/-- The claim loop on a booked storage, up to its payment. -/
theorem claimLoop_pays (env : Env) (now : ℕ) {ids : List ℕ} (hB : Booked st)
    (hfree : ∀ id ∈ ids, ¬ st.queue.blocked u id) :
    ∃ acc hist, ids.foldlM (claimStep now u) st.claimAcc = .ok acc ∧
      acc.paid.val ≤ st.totals.scrtOwedMatured.val ∧
      Payment env u ids st (pruneSettledWindows acc.settled { st with
        windows := acc.windows
        claims := acc.claims
        totals := { st.totals with
          scrtOwedMatured := st.totals.scrtOwedMatured.satSub acc.paid } }) acc.paid hist := by
  have hq := claimAcc_queue st
  have hlt := st.totals.scrtOwedMatured.isLt
  have hom := hB.owedMatured
  obtain ⟨acc, hist, hok, hsum, hcons, ho, hu, hrun, hto, hother, hpay⟩ :=
    claimLoop_free now u st.queue ids st.claimAcc
      (by rw [hq]; exact hB.shape) (by rw [hq]; exact hB.claims)
      (by rw [hq]; simpa [Storage.claimAcc, ← hom] using hlt) (by rw [hq]; exact hfree)
  rw [hq] at hsum hcons ho hu hrun
  simp only [Storage.claimAcc, Word.val_zero, Nat.zero_add] at hsum hcons hto
  have hle : acc.paid.val ≤ st.totals.scrtOwedMatured.val := by omega
  have hSC := Queue.Claims.run hB.shape hB.claims hrun
  refine ⟨acc, hist, hok, hle, ?_⟩
  rw [pruneSettledWindows_eq]
  -- pruning takes off the list exactly what the loop settled
  have hqueue : Storage.queue { st with
      windows := acc.windows
      claims := acc.claims
      activeWindows := st.activeWindows.filter fun id => id ∉ acc.settled
      totals := { st.totals with
        scrtOwedMatured := st.totals.scrtOwedMatured.satSub acc.paid } } = acc.queue st.queue := rfl
  refine ⟨hfree, hsum, hqueue ▸ hrun, hto.symm, hother, hpay, hle, rfl, ?_⟩
  refine ⟨hqueue ▸ hSC.1, hqueue ▸ hSC.2, ?_, ?_, ?_⟩
  · rw [hqueue, ho]; exact hB.owedOpen
  · rw [hqueue, hu]; exact hB.owedUnbonding
  · rw [hqueue]
    simp only [Word.val_satSub]
    omega

/-- A claim loop that succeeds on a booked storage met no blocked claim. -/
theorem claimLoop_inv (env : Env) {now : ℕ} {ids : List ℕ} {acc : ClaimAcc} (hB : Booked st)
    (h : ids.foldlM (claimStep now u) ⟨st.windows, st.claims, 0, []⟩ = .ok acc) :
    ∃ hist, Payment env u ids st (pruneSettledWindows acc.settled { st with
      windows := acc.windows
      claims := acc.claims
      totals := { st.totals with
        scrtOwedMatured := st.totals.scrtOwedMatured.satSub acc.paid } }) acc.paid hist := by
  have hq := claimAcc_queue st
  have hfree : ∀ id ∈ ids, ¬ st.queue.blocked u id := by
    intro id hid hbl
    obtain ⟨e, he⟩ := claimLoop_blocked now u st.queue ids st.claimAcc
      (by rw [hq]; exact hB.shape) (by rw [hq]; exact hB.claims)
      (by rw [hq]; simpa [Storage.claimAcc, ← hB.owedMatured] using st.totals.scrtOwedMatured.isLt)
      (by rw [hq]; exact ⟨id, hid, hbl⟩)
    rw [show st.claimAcc = ⟨st.windows, st.claims, 0, []⟩ from rfl, h] at he
    simp at he
  -- a loop that meets none is the one described above
  obtain ⟨acc', hist, hok, -, hP⟩ := claimLoop_pays env now hB hfree
  rw [show st.claimAcc = ⟨st.windows, st.claims, 0, []⟩ from rfl, h, Except.ok.injEq] at hok
  subst hok
  exact ⟨hist, hP⟩

/-- **A claim, inverted**: due windows are marked, then the claims named are paid. -/
theorem executeClaimMatured_ok {windowIds : Option (List ℕ)} (hB : Booked st)
    (h : executeClaimMatured deps env info windowIds st = .ok (st', resp)) :
    ∃ balance rets st₁ paid hist,
      deps.queryBalance env.contract.address st.config.bondedDenom = .ok balance ∧
      Marking env.time u32Max balance st st₁ rets ∧ Booked st₁ ∧
      Payment env info.sender (claimIds info.sender windowIds st₁) st₁ st' paid hist ∧ paid ≠ 0 ∧
      resp.messages = [.bankSend info.sender [⟨st₁.config.bondedDenom, paid⟩]] := by
  unfold executeClaimMatured at h
  simp only [bind_eq_ok, Prod.exists] at h
  obtain ⟨st₁, ids, hmat, acc, hacc, h⟩ := h
  obtain ⟨balance, rets, hbal, hM, -⟩ := matureDueWindows_ok hB hmat
  have hB₁ := hB.marking hM
  rw [guard_eq_ok, pure_eq_ok, Prod.mk.injEq] at h
  obtain ⟨hz, rfl, rfl⟩ := h
  obtain ⟨hist, hP⟩ := claimLoop_inv env hB₁ hacc
  exact ⟨balance, rets, st₁, acc.paid, hist, hbal, hM, hB₁, hP, hz, rfl⟩

/-- **A claim succeeds** when none of the claims named is blocked and something is due. -/
theorem executeClaimMatured_pays (info : MessageInfo) (windowIds : Option (List ℕ)) {ids : List ℕ}
    (hmat : matureDueWindows deps env u32Max st = .ok (st₁, ids)) (hB₁ : Booked st₁)
    (hfree : ∀ id ∈ claimIds info.sender windowIds st₁, ¬ st₁.queue.blocked info.sender id)
    (hpos : 0 < ∑ id ∈ (claimIds info.sender windowIds st₁).toFinset,
      st₁.queue.dueTo info.sender id) :
    ∃ st' resp paid hist, executeClaimMatured deps env info windowIds st = .ok (st', resp) ∧
      Payment env info.sender (claimIds info.sender windowIds st₁) st₁ st' paid hist ∧
      resp.messages = [.bankSend info.sender [⟨st₁.config.bondedDenom, paid⟩]] := by
  obtain ⟨acc, hist, hok, -, hP⟩ := claimLoop_pays env env.time hB₁ hfree
  have hz : acc.paid ≠ 0 := fun he => by
    have := hP.amount
    rw [he, Word.val_zero] at this
    omega
  refine ⟨_, ⟨[.bankSend info.sender [⟨st₁.config.bondedDenom, acc.paid⟩]],
    some (.claimMatured acc.paid acc.settled)⟩, acc.paid, hist, ?_, hP, rfl⟩
  unfold executeClaimMatured
  rw [hmat, ok_bind]
  simp only
  rw [show (⟨st₁.windows, st₁.claims, 0, []⟩ : ClaimAcc) = st₁.claimAcc from rfl, hok, ok_bind,
    if_neg hz]
  rfl

/-! ## Transactions -/

/-- What a list of messages sends an account through the bank. -/
def sentTo (u : Addr) (messages : List CosmosMsg) : ℕ :=
  (messages.map fun m => match m with
    | .bankSend dest amount => if dest = u then (amount.map (·.amount.val)).sum else 0
    | _ => 0).sum

@[simp] theorem sentTo_nil : sentTo u [] = 0 := rfl

@[simp] theorem sentTo_append (l l' : List CosmosMsg) : sentTo u (l ++ l') = sentTo u l + sentTo u l' := by
  simp [sentTo]

theorem sentTo_eq_zero {l : List CosmosMsg} (h : ∀ m ∈ l, ∀ dest amount, m ≠ .bankSend dest amount) :
    sentTo u l = 0 := by
  unfold sentTo
  rw [List.sum_eq_zero_iff]
  intro x hx
  obtain ⟨m, hm, rfl⟩ := List.mem_map.1 hx
  cases m with
  | bankSend dest amount => exact absurd rfl (h _ hm dest amount)
  | _ => rfl

/-- Marking windows pays nobody. -/
theorem paidTo_matures (rets : List (ℕ × Uint128)) :
    paidTo u (rets.map fun ret => Move.mature ret.1 ret.2).reverse = 0 := by
  unfold paidTo
  rw [List.sum_eq_zero_iff]
  intro x hx
  simp only [List.map_reverse, List.mem_reverse, List.map_map, List.mem_map] at hx
  obtain ⟨ret, -, rfl⟩ := hx
  rfl

/-- A transaction's effect on the queue: a run of moves that pays what the messages send. -/
def Refines (st st' : Storage) (messages : List CosmosMsg) : Prop :=
  ∃ hist, Run Queue.Step st.queue hist st'.queue ∧ ∀ u, sentTo u messages = paidTo u hist

/-- The terms of the protocol, which no call changes. -/
structure SameTerms (st st' : Storage) : Prop where
  period : st'.config.params.unbondingPeriodSecs = st.config.params.unbondingPeriodSecs
  windowSecs : st'.config.params.unbondWindowSecs = st.config.params.unbondWindowSecs
  ceiling : st'.config.params.maxUnbondEntriesPerValidator =
    st.config.params.maxUnbondEntriesPerValidator

theorem SameTerms.of_config (h : st'.config = st.config) : SameTerms st st' := by
  constructor <;> rw [h]

theorem SameTerms.trans (h : SameTerms st st₁) (h' : SameTerms st₁ st') : SameTerms st st' :=
  ⟨h'.period.trans h.period, h'.windowSecs.trans h.windowSecs, h'.ceiling.trans h.ceiling⟩

theorem Still.terms (h : Still st st') : SameTerms st st' := ⟨h.period, h.windowSecs, h.ceiling⟩

/-- **What a call at time `now` made of the queue**: a run of moves that pays what the messages
send, and closes the open window where they undelegate. -/
structure Moved (now : ℕ) (st st' : Storage) (messages : List CosmosMsg) (hist : List Move) :
    Prop where
  run : Run Queue.Step st.queue hist st'.queue
  paid : ∀ u, sentTo u messages = paidTo u hist
  timed : ∀ m ∈ hist, m.Timed now st.config.params
  closes : undelegations messages ≠ [] →
    ∃ t maturesAt secs, Move.close t maturesAt secs ((undelegations messages).map (·.1)) ∈ hist
  terms : SameTerms st st'

theorem Move.Timed.of_terms {m : Move} {now : ℕ} (ht : SameTerms st st₁)
    (h : m.Timed now st₁.config.params) : m.Timed now st.config.params := by
  cases m with
  | close => exact ⟨h.1, ht.period ▸ h.2.1, ht.windowSecs ▸ h.2.2⟩
  | _ => trivial

@[simp] theorem undelegations_append (l l' : List CosmosMsg) :
    undelegations (l ++ l') = undelegations l ++ undelegations l' := List.filterMap_append

theorem undelegations_eq_nil {l : List CosmosMsg} (h : ∀ m ∈ l, ∀ v c, m ≠ .undelegate v c) :
    undelegations l = [] := by
  unfold undelegations
  rw [List.filterMap_eq_nil_iff]
  intro m hm
  cases m with
  | undelegate v c => exact absurd rfl (h _ hm v c)
  | _ => rfl

namespace Moved

variable {now : ℕ} {l l' : List CosmosMsg} {hist hist' : List Move}

theorem refines (h : Moved now st st' l hist) : Refines st st' l := ⟨hist, h.run, h.paid⟩

/-- What leaves the queue alone makes no move. -/
theorem still (h : Still st st') (hm : ∀ m ∈ l, ∀ dest amount, m ≠ .bankSend dest amount)
    (hu : undelegations l = []) : Moved now st st' l [] where
  run := h.queue ▸ .nil
  paid _ := sentTo_eq_zero hm
  timed := by simp
  closes hne := absurd hu hne
  terms := h.terms

/-- One part of a call after another. Only one of them undelegates. -/
theorem trans (h : Moved now st st₁ l hist) (h' : Moved now st₁ st' l' hist')
    (hu : undelegations l = []) : Moved now st st' (l ++ l') (hist' ++ hist) where
  run := h.run.trans h'.run
  paid u := by rw [sentTo_append, paidTo_append, h.paid, h'.paid, Nat.add_comm]
  timed m hm := by
    rcases List.mem_append.1 hm with hm | hm
    · exact (h'.timed m hm).of_terms h.terms
    · exact h.timed m hm
  closes hne := by
    rw [undelegations_append, hu, List.nil_append] at hne ⊢
    obtain ⟨t, m, secs, hc⟩ := h'.closes hne
    exact ⟨t, m, secs, List.mem_append_left _ hc⟩
  terms := h.terms.trans h'.terms

end Moved

/-- Closing undelegates, and does nothing else. -/
theorem Undelegated.messages_mem {w : UnbondWindow} {vs : List ValidatorEntry} {ts : TotalsCache}
    {used : List String} {messages : List CosmosMsg} (h : Undelegated st w vs ts used messages) :
    ∀ m ∈ messages, ∃ v c, m = .undelegate v c := by
  cases h with
  | nothing => simp
  | issued hz hplan hissue hou =>
    refine foldlM_inv (f := issueLeg st.config.bondedDenom)
      (fun _ acc => ∀ m ∈ acc.messages, ∃ v c, m = .undelegate v c) ?_ _ _ _ (by simp) hissue
    intro leg rest acc acc' hacc hstep
    obtain ⟨v, -, rfl⟩ := issueLeg_eq_ok.1 hstep
    intro m hm
    rcases List.mem_append.1 hm with hm | hm
    · exact hacc m hm
    · exact ⟨_, _, List.mem_singleton.1 hm⟩

/-- The validators undelegated from are those the window records. -/
theorem Undelegated.names {w : UnbondWindow} {vs : List ValidatorEntry} {ts : TotalsCache}
    {used : List String} {messages : List CosmosMsg} (h : Undelegated st w vs ts used messages)
    (hw : w.validatorsUsed = []) : (undelegations messages).map (·.1) = used := by
  cases h with
  | nothing => simp [undelegations, hw]
  | issued hz hplan hissue hou =>
    refine foldlM_inv (f := issueLeg st.config.bondedDenom)
      (fun _ acc => (undelegations acc.messages).map (·.1) = acc.used) ?_ _ _ _
      (by simp [undelegations, hw]) hissue
    intro leg rest acc acc' hacc hstep
    obtain ⟨v, -, rfl⟩ := issueLeg_eq_ok.1 hstep
    rw [undelegations_append, List.map_append, hacc]
    rfl

/-- An open window has drawn on no validator. -/
theorem Booked.used_nil {w : UnbondWindow} (hB : Booked st)
    (hw : st.windows.lookup st.openWindow = some w) (hopen : w.state = .open) :
    w.validatorsUsed = [] := by
  have hok := hB.shape.ok _ _ (show st.queue.windows.lookup _ = _ from hw)
  unfold UnbondWindow.OK at hok
  rw [hopen] at hok
  exact hok.2.2

/-- The closing of the open window, whoever calls for it. -/
theorem Booked.closing_moved {closing : Closing} {w : UnbondWindow} (hB : Booked st)
    (hw : st.windows.lookup st.openWindow = some w) (hopen : w.state = .open)
    (hdue : w.closesAt ≤ env.time) (h : closeOpenWindow env st = .ok (st', closing)) :
    Booked st' ∧ ∃ hist, Moved env.time st st' closing.messages hist := by
  obtain ⟨used, hund, ⟨hcfg, -, -⟩, hstep⟩ := closeOpenWindow_ok hw hopen hdue h
  refine ⟨(hB.closing hw hopen hdue h).1, [_], .single hstep, fun u => ?_, ?_, fun _ => ?_,
    .of_config hcfg⟩
  · have hnone : sentTo u closing.messages = 0 := sentTo_eq_zero fun m hm dest amount => by
      obtain ⟨_, _, rfl⟩ := hund.messages_mem m hm
      simp
    rw [hnone]
    simp [paidTo, Move.payoutTo]
  · simp [Move.Timed]
  · rw [hund.names (hB.used_nil hw hopen)]
    exact ⟨_, _, _, List.mem_singleton_self _⟩

theorem Booked.overdue {messages : List CosmosMsg} (hB : Booked st)
    (h : closeWindowIfOverdue env st = .ok (st', messages)) :
    Booked st' ∧ ∃ hist, Moved env.time st st' messages hist := by
  rcases closeWindowIfOverdue_ok h with ⟨rfl, rfl⟩ | ⟨w, closing, hw, hopen, hdue, hc, rfl⟩
  · exact ⟨hB, [], .nil, fun _ => rfl, by simp, by simp [undelegations], .of_config rfl⟩
  · exact hB.closing_moved hw hopen hdue hc

theorem executeDeposit_ok (h : executeDeposit deps env info st = .ok (st', resp)) :
    ∃ st₁ deposit shares messages closing,
      acceptDeposit deps env info st = .ok (st₁, deposit, shares, messages) ∧
      closeWindowIfOverdue env st₁ = .ok (st', closing) ∧ resp.messages = messages ++ closing := by
  unfold executeDeposit at h
  simp only [bind_eq_ok, Prod.exists, pure_eq_ok, Prod.mk.injEq] at h
  obtain ⟨st₁, deposit, shares, messages, ha, st₂, closing, hc, rfl, rfl⟩ := h
  exact ⟨st₁, deposit, shares, messages, closing, ha, hc, rfl⟩

theorem executeReceive_ok {fromAddr : String} {amount : Uint128} {msg : Option Binary}
    (h : executeReceive deps env info fromAddr amount msg st = .ok (st', resp)) :
    ∃ st₁ w owed token closing,
      requestWithdrawal deps env info fromAddr amount msg st = .ok (st₁, w, owed, token) ∧
      closeWindowIfOverdue env st₁ = .ok (st', closing) ∧
      resp.messages = .token token (.burn amount none) :: closing := by
  unfold executeReceive at h
  simp only [bind_eq_ok, Prod.exists, pure_eq_ok, Prod.mk.injEq] at h
  obtain ⟨st₁, w, owed, token, ha, st₂, closing, hc, rfl, rfl⟩ := h
  exact ⟨st₁, w, owed, token, closing, ha, hc, rfl⟩

/-- The storages from which a call on `st` may close the open window: `st` itself, and those
with a deposit booked or a request joined. -/
inductive ClosesFrom (st : Storage) : Storage → Prop
  | advance : ClosesFrom st st
  | deposit {deps : Deps} {env : Env} {info : MessageInfo} {st₁ : Storage}
      {deposit shares : Uint128} {messages : List CosmosMsg}
      (h : acceptDeposit deps env info st = .ok (st₁, deposit, shares, messages)) : ClosesFrom st st₁
  | receive {deps : Deps} {env : Env} {info : MessageInfo} {st₁ : Storage} {fromAddr : String}
      {amount owed : Uint128} {msg : Option Binary} {w : UnbondWindow} {token : ContractInfo}
      (h : requestWithdrawal deps env info fromAddr amount msg st = .ok (st₁, w, owed, token)) :
      ClosesFrom st st₁

/-- A request is a refresh, then a move of the queue. -/
theorem requestWithdrawal_join {fromAddr : String} {amount owed : Uint128} {msg : Option Binary}
    {w : UnbondWindow} {token : ContractInfo}
    (h : requestWithdrawal deps env info fromAddr amount msg st = .ok (st', w, owed, token)) :
    ∃ st₁, Still st st₁ ∧ slots st₁.validators = slots st.validators ∧
      joinWindow deps fromAddr amount owed st₁ = .ok (st', w) := by
  obtain ⟨st₁, -, -, -, -, hprice, hj⟩ := requestWithdrawal_ok h
  obtain ⟨pool, hpool, -⟩ := priceWithdrawal_eq_ok.1 hprice
  obtain ⟨hs, hsl⟩ := refreshTotals_still (pricingPool_eq_ok.1 hpool).1
  exact ⟨st₁, hs, hsl, hj⟩

theorem Booked.closesFrom (hB : Booked st) (h : ClosesFrom st st₁) : Booked st₁ := by
  cases h with
  | advance => exact hB
  | deposit h =>
    obtain ⟨d, rfl, -⟩ := acceptDeposit_ok h
    exact hB.still d.still
  | receive h =>
    obtain ⟨st₂, hs, -, hj⟩ := requestWithdrawal_join h
    exact ((hB.still hs).join hj).1

theorem executeCollectMatured_ok {limit : Option ℕ}
    (h : executeCollectMatured deps env limit st = .ok (st', resp)) :
    ∃ ids, matureDueWindows deps env (limit.getD defaultSyncLimit) st = .ok (st', ids) ∧
      resp.messages = [] := by
  unfold executeCollectMatured at h
  simp only [bind_eq_ok, Prod.exists, pure_eq_ok, Prod.mk.injEq] at h
  obtain ⟨st₁, ids, hm, rfl, rfl⟩ := h
  exact ⟨ids, hm, rfl⟩

theorem migrate_ok (h : migrate st = .ok (st', resp)) :
    st' = { st with config := { st.config with limits :=
      { st.config.limits with maxPerformanceFeeBps := migrationMaxPerformanceFeeBps } } } ∧
      resp.messages = [] := by
  unfold migrate at h
  simp only [bind_eq_ok, pure_eq_ok, Prod.mk.injEq] at h
  obtain ⟨_, -, rfl, rfl⟩ := h
  exact ⟨rfl, rfl⟩

theorem executeSetPaused_ok {paused : Bool} (h : executeSetPaused info paused st = .ok (st', resp)) :
    st' = { st with config := { st.config with paused := paused } } ∧ resp.messages = [] := by
  unfold executeSetPaused at h
  rw [guard_eq_ok] at h
  simp only [Except.ok.injEq, Prod.mk.injEq] at h
  obtain ⟨-, rfl, rfl⟩ := h
  exact ⟨rfl, rfl⟩

/-- A compound withdraws, delegates and mints. -/
theorem executeCompound_messages {limit : Option ℕ}
    (h : executeCompound deps env limit st = .ok (st', resp)) : ∀ m ∈ resp.messages,
      (∃ v, m = .withdrawDelegatorReward v) ∨ (∃ v c, m = .delegate v c) ∨ ∃ c t, m = .token c t := by
  obtain ⟨c, -, hm, -⟩ := executeCompound_ok h
  rw [hm]
  intro m hm
  rcases List.mem_append.1 hm with hm | hm
  · obtain ⟨v, -, rfl⟩ := List.mem_map.1 hm
    exact .inl ⟨_, rfl⟩
  · rcases restake_ok c.restake_eq with ⟨-, -, hnil, -⟩ | ⟨-, before, validator, feeMsgs, -, -, -, hf, hres⟩
    · simp [hnil] at hm
    · rw [hres] at hm
      rcases List.mem_cons.1 hm with rfl | hm
      · exact .inr (.inl ⟨_, _, rfl⟩)
      · rcases feeMessages_ok hf with rfl | ⟨c, t, rfl⟩
        · simp at hm
        · exact .inr (.inr ⟨c, t, List.mem_singleton.1 hm⟩)

/-- A manager call redelegates or sends nothing. -/
theorem executeManager_messages {m : ManagerMsg} (h : executeManager info m st = .ok (st', resp)) :
    ∀ m ∈ resp.messages, ∃ src dst c, m = .redelegate src dst c := by
  rcases executeManager_ok h with ⟨_, -, -, -, hm⟩ | ⟨_, -, -, -, hm⟩ | ⟨plan, acc, -, hacc, -, hm⟩
  · simp [hm]
  · simp [hm]
  · obtain ⟨-, -, -, hacc'⟩ := rebalance_ok hacc
    rw [hm, hacc']
    intro m hm
    simp only [List.nil_append, List.mem_map] at hm
    obtain ⟨step, -, rfl⟩ := hm
    exact ⟨_, _, _, rfl⟩

/-- **Every call keeps the ledger and is a run of moves of the queue at its time.** -/
theorem step_moved {e : Call × Response} {now : ℕ} (hB : Booked st) (h : Step st e st')
    (ht : ∀ t ∈ e.1.time, t = now) : Booked st' ∧ ∃ hist, Moved now st st' e.2.messages hist := by
  obtain ⟨call, resp⟩ := e
  cases call with
  | migrate =>
    obtain ⟨hst, hm⟩ := migrate_ok h
    have hs : Still st st' := by rw [hst]; exact .of_write rfl rfl rfl rfl
    exact ⟨hB.still hs, [], .still hs (by rw [hm]; simp) (by rw [hm]; rfl)⟩
  | execute deps env info msg =>
    obtain rfl := ht env.time rfl
    cases msg with
    -- a deposit leaves the queue alone, a request joins it; both may close the open window
    | deposit =>
      obtain ⟨st₁, deposit, shares, messages, closing, ha, hc, hm⟩ := executeDeposit_ok h
      obtain ⟨d, rfl, rfl⟩ := acceptDeposit_ok ha
      obtain ⟨hB', hist, hr⟩ := (hB.still d.still).overdue hc
      have hu : undelegations d.messages = [] := rfl
      have hd : Moved env.time st d.next d.messages [] :=
        .still d.still (by simp [Deposited.messages, delegateMsg]) hu
      refine ⟨hB', hist ++ [], ?_⟩
      rw [hm]
      exact hd.trans hr hu
    | receive sender fromAddr amount msg =>
      obtain ⟨st₁, w, owed, token, closing, hreq, hc, hm⟩ := executeReceive_ok h
      obtain ⟨st₂, hs, -, hj⟩ := requestWithdrawal_join hreq
      obtain ⟨hB₁, u, hstep⟩ := (hB.still hs).join hj
      obtain ⟨hB', hist, hr⟩ := hB₁.overdue hc
      have hjoin : Moved env.time st st₁ [.token token (.burn amount none)] [.join u amount owed] := by
        obtain ⟨_, _, -, -, -, hst⟩ := joinWindow_ok hj
        refine ⟨hs.queue ▸ .single hstep, fun _ => rfl, by simp [Move.Timed], by simp [undelegations],
          hs.terms.trans (.of_config (by rw [hst]))⟩
      refine ⟨hB', hist ++ [.join u amount owed], ?_⟩
      rw [hm]
      exact hjoin.trans hr rfl
    | claimMatured windowIds =>
      obtain ⟨balance, rets, st₁, paid, hist, -, hM, hB₁, hP, -, hm⟩ := executeClaimMatured_ok hB h
      -- due windows are marked first, which pays nobody, and then the claims are paid
      refine ⟨hP.booked, hist ++ (rets.map fun ret => Move.mature ret.1 ret.2).reverse,
        (hM.run hB).trans hP.run, fun v => ?_, fun m hmem => ?_, by rw [hm]; simp [undelegations],
        .of_config (by rw [hP.frame, hM.frame])⟩
      · rw [hm, paidTo_append, paidTo_matures, Nat.add_zero]
        by_cases hv : v = info.sender
        · subst hv
          simp [sentTo, hP.toSender]
        · simp [sentTo, hP.toOther v hv, Ne.symm hv]
      · rcases List.mem_append.1 hmem with hpay | hmat
        · have := hP.isPay m hpay
          cases m <;> trivial
        · simp only [List.mem_reverse, List.mem_map] at hmat
          obtain ⟨ret, -, rfl⟩ := hmat
          trivial
    | compound limit =>
      obtain ⟨c, rfl, -⟩ := executeCompound_ok h
      have hmsg := executeCompound_messages h
      refine ⟨hB.still c.still, [], .still c.still (fun m hm dest amount => ?_)
        (undelegations_eq_nil fun m hm v c => ?_)⟩ <;>
        rcases hmsg m hm with ⟨_, rfl⟩ | ⟨_, _, rfl⟩ | ⟨_, _, rfl⟩ <;> simp
    | advanceWindow =>
      obtain ⟨w, closing, hw, hopen, hdue, hc, hm⟩ := executeAdvanceWindow_ok h
      rw [hm]
      exact hB.closing_moved hw hopen hdue hc
    | collectMatured limit =>
      obtain ⟨ids, hmat, hm⟩ := executeCollectMatured_ok h
      obtain ⟨balance, rets, -, hM, -⟩ := matureDueWindows_ok hB hmat
      refine ⟨hB.marking hM, _, hM.run hB, fun v => ?_, fun m hmem => ?_,
        by rw [hm]; simp [undelegations], .of_config (by rw [hM.frame])⟩
      · rw [hm, sentTo_nil, paidTo_matures]
      · simp only [List.mem_reverse, List.mem_map] at hmem
        obtain ⟨ret, -, rfl⟩ := hmem
        trivial
    | sync limit =>
      obtain ⟨s, rfl, hm, -⟩ := executeSync_ok h
      exact ⟨hB.still s.still, [], .still s.still (by rw [hm]; simp) (by rw [hm]; rfl)⟩
    | manager m =>
      have hs := executeManager_still h
      have hmsg := executeManager_messages h
      refine ⟨hB.still hs, [], .still hs (fun m hm dest amount => ?_)
        (undelegations_eq_nil fun m hm v c => ?_)⟩ <;>
        obtain ⟨_, _, _, rfl⟩ := hmsg m hm <;> simp
    | setPaused paused =>
      obtain ⟨hst, hm⟩ := executeSetPaused_ok h
      have hs : Still st st' := by rw [hst]; exact .of_write rfl rfl rfl rfl
      exact ⟨hB.still hs, [], .still hs (by rw [hm]; simp) (by rw [hm]; rfl)⟩
    | bootstrap tokenAddress tokenCodeHash =>
      obtain ⟨s, rfl, hm⟩ := executeBootstrap_ok h
      have hs := s.still env.time tokenCodeHash
      exact ⟨hB.still hs, [], .still hs (by rw [hm]; simp [Seeded.messages, delegateMsg])
        (by rw [hm]; rfl)⟩

theorem Step.exists_time (e : Call × Response) : ∃ now, ∀ t ∈ e.1.time, t = now := by
  obtain ⟨call, resp⟩ := e
  cases call with
  | execute deps env info msg => exact ⟨env.time, by simp [Call.time]⟩
  | migrate => exact ⟨0, by simp [Call.time]⟩

theorem step_refines {e : Call × Response} (hB : Booked st) (h : Step st e st') :
    Booked st' ∧ Refines st st' e.2.messages := by
  obtain ⟨now, ht⟩ := Step.exists_time e
  obtain ⟨hB', hist, hm⟩ := step_moved hB h ht
  exact ⟨hB', hm.refines⟩

/-- **A whole history** is a run of the queue that pays each account what the history's
messages sent it. -/
theorem run_refines {h : List (Call × Response)} (hB : Booked st) (hr : Run Step st h st') :
    Booked st' ∧ ∃ hist, Run Queue.Step st.queue hist st'.queue ∧
      ∀ u, (h.map fun e => sentTo u e.2.messages).sum = paidTo u hist := by
  induction hr with
  | nil => exact ⟨hB, [], .nil, fun _ => rfl⟩
  | cons _ hs ih =>
    obtain ⟨hB', hist, hrun, hsent⟩ := ih
    obtain ⟨hB'', hist', hrun', hsent'⟩ := step_refines hB' hs
    refine ⟨hB'', hist' ++ hist, hrun.trans hrun', fun u => ?_⟩
    rw [List.map_cons, List.sum_cons, paidTo_append, hsent, hsent']

/-! ## Reachable storages -/

theorem instantiate_ok {msg : InstantiateMsg}
    (h : instantiate deps env info msg = .ok (st, resp)) :
    ∃ config, checkInstantiate msg = .ok () ∧ config.params = msg.params ∧
      config.limits = msg.limits ∧ config.bondedDenom = msg.bondedDenom ∧ config.token = none ∧
      st = initialStorage env config msg.validatorAllowlist msg.validators := by
  unfold instantiate at h
  simp only [bind_eq_ok, pure_eq_ok, Prod.mk.injEq] at h
  obtain ⟨_, hc, manager, -, treasury, -, rfl, rfl⟩ := h
  exact ⟨_, hc, rfl, rfl, rfl, rfl, rfl⟩

section Initial

variable (env : Env) (config : Config) (allowlist : List String) (validators : List ValidatorInit)

/-- The one window of a new contract. -/
theorem lookup_initial (id : ℕ) (w : UnbondWindow) :
    (initialStorage env config allowlist validators).queue.windows.lookup id = some w ↔
      id = 0 ∧ w = Windows.open 0 env.time config.params.unbondWindowSecs := by
  simp only [initialStorage, Storage.queue, Keymap.lookup_put]
  split <;> simp_all [eq_comm]

theorem shape_initial : (initialStorage env config allowlist validators).queue.Shape where
  next := rfl
  mem id := by
    show (∃ w, (initialStorage env config allowlist validators).queue.windows.lookup id = some w) ↔
      id < 1
    simp only [lookup_initial]
    simp
  keyed id w h := by
    obtain ⟨rfl, rfl⟩ := (lookup_initial env config allowlist validators id w).1 h
    rfl
  isOpen id w h := by
    obtain ⟨rfl, rfl⟩ := (lookup_initial env config allowlist validators id w).1 h
    exact ⟨fun _ => rfl, fun _ => rfl⟩
  ok id w h := by
    obtain ⟨rfl, rfl⟩ := (lookup_initial env config allowlist validators id w).1 h
    exact ⟨rfl, rfl, rfl⟩
  active id := by
    constructor
    · intro h
      simp [initialStorage, Storage.queue] at h
    · rintro ⟨w, h, ha⟩
      obtain ⟨rfl, rfl⟩ := (lookup_initial env config allowlist validators id w).1 h
      exact absurd ha (UnbondWindow.not_active_of_open rfl)
  sorted := List.Pairwise.nil

/-- Nobody has a claim, and the one window counts nothing. -/
theorem claims_initial : (initialStorage env config allowlist validators).queue.Claims := by
  have hc : ∀ k, (initialStorage env config allowlist validators).queue.claims.lookup k = none :=
    fun k => AList.lookup_empty k
  have hct : ∀ id f, (initialStorage env config allowlist validators).queue.claimTotal id f = 0 :=
    fun id f => Queue.claimTotal_eq_zero fun u c hl => by simp [hc] at hl
  constructor
  case keyed => exact fun u id c h => by simp [hc] at h
  case window => exact fun u id c h => by simp [hc] at h
  case unclaimed => exact fun u id c w h => by simp [hc] at h
  case index => exact fun u id => by rw [hc]; rfl
  all_goals
    intro id w h
    obtain ⟨rfl, rfl⟩ := (lookup_initial env config allowlist validators id w).1 h
    exact hct _ _

theorem booked_initial : Booked (initialStorage env config allowlist validators) := by
  have ht := Keymap.total_insert_new (m := (∅ : Keymap ℕ UnbondWindow)) (k := 0)
    (v := Windows.open 0 env.time config.params.unbondWindowSecs)
    (f := fun _ w => Queue.inFlight w) (AList.lookup_empty _)
  have ht' := Keymap.total_insert_new (m := (∅ : Keymap ℕ UnbondWindow)) (k := 0)
    (v := Windows.open 0 env.time config.params.unbondWindowSecs)
    (f := fun _ w => Queue.stillDue w) (AList.lookup_empty _)
  have hopen := Queue.openOwed_eq (q := (initialStorage env config allowlist validators).queue)
    ((lookup_initial env config allowlist validators 0 _).2 ⟨rfl, rfl⟩)
  exact ⟨shape_initial .., claims_initial .., hopen.symm, ht.symm, ht'.symm⟩

end Initial

theorem Instantiated.booked (h : Instantiated st) : Booked st := by
  obtain ⟨deps, env, info, msg, resp, hi⟩ := h
  obtain ⟨config, -, -, -, -, -, rfl⟩ := instantiate_ok hi
  exact booked_initial _ _ _ _

/-- **The ledger holds in every reachable storage.** -/
theorem Reachable.booked (h : Reachable st) : Booked st := by
  obtain ⟨st₀, hist, hi, hr⟩ := h
  exact (run_refines hi.booked hr).1

end LstCore
