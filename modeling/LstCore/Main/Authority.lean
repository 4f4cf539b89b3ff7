import LstCore.Main.Coverage

/-!
# Who may change what

Whoever instantiates the contract may seed the pool, once. Until then nobody gets in or out; from
then on nothing of the configuration moves but the fee and the pause, which are the manager's, as
the weights and the statuses are. Nothing the manager sends touches the queue or the totals, or
emits anything but redelegations to the allowlist (`authority_frame`).

* `Unseeded`, `Bound`: the two phases of a contract, each with its step lemma.
* `execute_unmanaged`, `execute_manages`: what a message of somebody else, and one of the manager's
  leave alone.
* `Unseeded.run`, `Bound.run`, `unmanaged_run`, `managed_run`: the same of whole runs.
-/

namespace LstCore

open Lib

variable {deps : Deps} {env : Env} {info : MessageInfo} {msg : ExecuteMsg} {st st' st₀ : Storage}
  {resp : Response} {s : Addr} {call : Call} {e : Call × Response}

/-! ## Calls -/

namespace ExecuteMsg

def bootstraps : ExecuteMsg → Bool
  | .bootstrap _ _ => true
  | _ => false

/-- The messages that are the manager's to send. -/
def manages : ExecuteMsg → Bool
  | .manager _ | .setPaused _ => true
  | _ => false

/-- A deposit, a request for a withdrawal, or the claim of one. -/
def entersOrLeaves : ExecuteMsg → Bool
  | .deposit | .receive .. | .claimMatured _ => true
  | _ => false

end ExecuteMsg

/-- A message, not an upgrade. -/
def Call.isExecute : Call → Bool
  | .execute .. => true
  | .migrate => false

def Call.sender : Call → Option Addr
  | .execute _ _ info _ => some info.sender
  | .migrate => none

/-- The call is a message of the kind. -/
def Call.sends (kind : ExecuteMsg → Bool) : Call → Bool
  | .execute _ _ _ msg => kind msg
  | .migrate => false

@[simp] theorem Call.sends_execute (kind : ExecuteMsg → Bool) :
    (Call.execute deps env info msg).sends kind = kind msg := rfl

/-- Nothing of the configuration has moved but the fee and the pause. -/
def Config.ManagedTo (c c' : Config) : Prop :=
  c' = { c with
    params := { c.params with performanceFeeBps := c'.params.performanceFeeBps }
    paused := c'.paused }

theorem Config.ManagedTo.trans {c c' c'' : Config} (h : c.ManagedTo c') (h' : c'.ManagedTo c'') :
    c.ManagedTo c'' := by
  unfold ManagedTo at *
  rw [h', h]

/-- A bootstrap apart, a message moves nothing else. -/
theorem Reconfigured.managed {c c' : Config} (h : Reconfigured c msg c')
    (hb : msg.bootstraps = false) : c.ManagedTo c' := by
  cases h with
  | same | paused | fee => rfl
  | bound => cases hb

theorem Reconfigured.manager_eq {c c' : Config} (h : Reconfigured c msg c') :
    c'.manager = c.manager := by
  cases h <;> rfl

/-- What is not the manager's moves neither the fee nor the pause. -/
theorem Reconfigured.unmanaged {c c' : Config} (h : Reconfigured c msg c')
    (hm : msg.manages = false) :
    c'.params.performanceFeeBps = c.params.performanceFeeBps ∧ c'.paused = c.paused := by
  cases h with
  | same | bound => exact ⟨rfl, rfl⟩
  | paused | fee => cases hm

/-! ## The seed -/

/-- Before the seed: the contract is still its deployer's, and owes nothing. -/
structure Unseeded (s : Addr) (st : Storage) : Prop where
  deployer : st.config.deployer = some s
  token : st.config.token = none
  claims : ∀ k, st.claims.lookup k = none

/-- After it: the token is bound, and nobody may bind another. -/
structure Bound (st : Storage) : Prop where
  deployer : st.config.deployer = none
  token : st.config.token ≠ none

theorem Instantiated.unseeded {msg : InstantiateMsg}
    (hi : instantiate deps env info msg = .ok (st, resp)) : Unseeded info.sender st := by
  unfold instantiate at hi
  simp only [bind_eq_ok, pure_eq_ok, Prod.mk.injEq] at hi
  obtain ⟨_, -, _, -, _, -, rfl, -⟩ := hi
  exact ⟨rfl, rfl, fun _ => rfl⟩

/-- **Nobody gets in or out before the seed.** -/
theorem Unseeded.refuses (h : Unseeded s st) (hB : Booked st)
    (he : execute deps env info msg st = .ok (st', resp)) : msg.entersOrLeaves = false := by
  cases msg with
  | deposit =>
    obtain ⟨_, _, _, _, _, ha, -⟩ := executeDeposit_ok he
    obtain ⟨d, -⟩ := acceptDeposit_ok ha
    exact absurd (h.token.symm.trans d.bound) (by simp)
  | receive sender fromAddr amount hook =>
    obtain ⟨_, _, _, token, _, ha, -⟩ := executeReceive_ok he
    obtain ⟨_, ht, -⟩ := requestWithdrawal_ok ha
    exact absurd (h.token.symm.trans ht) (by simp)
  | claimMatured windowIds =>
    -- without claims there is nothing to pay
    obtain ⟨_, _, st₁, paid, _, -, hM, -, hP, hne, -⟩ := executeClaimMatured_ok hB he
    refine absurd (Word.eq_zero_iff.2 (hP.amount.trans (Finset.sum_eq_zero fun id _ => ?_))) hne
    have hnone : st₁.claims.lookup (info.sender, id) = none := by
      rw [hM.frame]
      exact h.claims _
    exact st₁.queue.dueTo_of_none hnone
  | _ => rfl

/-- What neither enters nor leaves writes no claim. -/
theorem execute_claims (hB : Booked st) (hmsg : msg.entersOrLeaves = false)
    (h : execute deps env info msg st = .ok (st', resp)) : st'.claims = st.claims := by
  cases msg with
  | deposit | receive | claimMatured => cases hmsg
  | compound limit =>
    obtain ⟨c, rfl, -⟩ := executeCompound_ok h
    exact congrArg Queue.claims c.still.queue
  | advanceWindow =>
    obtain ⟨w, closing, hw, hopen, hdue, hc, -⟩ := executeAdvanceWindow_ok h
    obtain ⟨used, -, -, hq⟩ := closeOpenWindow_ok hw hopen hdue hc
    exact hq.close_claims
  | collectMatured limit =>
    obtain ⟨ids, hmat, -⟩ := executeCollectMatured_ok h
    obtain ⟨_, _, -, hM, -⟩ := matureDueWindows_ok hB hmat
    rw [hM.frame]
  | sync limit =>
    obtain ⟨s, rfl, -⟩ := executeSync_ok h
    exact congrArg Queue.claims s.still.queue
  | manager m => exact congrArg Queue.claims (executeManager_still h).queue
  | setPaused paused =>
    obtain ⟨rfl, -⟩ := executeSetPaused_ok h
    rfl
  | bootstrap tokenAddress tokenCodeHash =>
    obtain ⟨s, rfl, -⟩ := executeBootstrap_ok h
    rfl

/-- **A message before the seed** is its deployer's bootstrap, or leaves the contract unseeded. -/
theorem Unseeded.execute (h : Unseeded s st) (hB : Booked st)
    (he : execute deps env info msg st = .ok (st', resp)) :
    (msg.bootstraps = true ∧ info.sender = s ∧ Bound st') ∨
      (msg.bootstraps = false ∧ Unseeded s st') := by
  rcases hb : msg.bootstraps
  · have hcfg := (execute_config hB he).managed hb
    have hclaims := execute_claims hB (h.refuses hB he) he
    refine .inr ⟨rfl, ?_, ?_, fun k => hclaims ▸ h.claims k⟩
    · rw [hcfg]
      exact h.deployer
    · rw [hcfg]
      exact h.token
  · cases msg with
    | bootstrap tokenAddress tokenCodeHash =>
      obtain ⟨d, hst, -⟩ := executeBootstrap_ok he
      have hs := (executeBootstrap_checked he).1.symm.trans h.deployer
      refine .inl ⟨rfl, Option.some.inj hs, ?_⟩
      rw [hst]
      exact ⟨rfl, by simp [Seeded.next]⟩
    | _ => cases hb

/-- **A message after it** is no bootstrap, and the contract stays bound. -/
theorem Bound.execute (h : Bound st) (hB : Booked st)
    (he : execute deps env info msg st = .ok (st', resp)) :
    msg.bootstraps = false ∧ st.config.ManagedTo st'.config ∧ Bound st' := by
  have hb : msg.bootstraps = false := by
    cases msg with
    | bootstrap tokenAddress tokenCodeHash =>
      have hs := (executeBootstrap_checked he).1
      rw [h.deployer] at hs
      cases hs
    | _ => rfl
  have hcfg := (execute_config hB he).managed hb
  refine ⟨hb, hcfg, ?_, ?_⟩
  · rw [hcfg]
    exact h.deployer
  · rw [hcfg]
    exact h.token

/-! ## The manager -/

/-- **What somebody else sends** leaves the manager's own alone: the fee, the pause, the weights
and the statuses. -/
theorem execute_unmanaged (hB : Booked st) (hs : info.sender ≠ st.config.manager)
    (he : execute deps env info msg st = .ok (st', resp)) :
    st'.config.manager = st.config.manager ∧
      st'.config.params.performanceFeeBps = st.config.params.performanceFeeBps ∧
      st'.config.paused = st.config.paused ∧ posts st'.validators = posts st.validators := by
  have hm : msg.manages = false := by
    cases msg with
    | manager m =>
      have he : executeManager info m st = .ok (st', resp) := he
      unfold executeManager at he
      rw [guard_eq_ok] at he
      exact absurd he.1 (not_not_intro hs)
    | setPaused paused =>
      have he : executeSetPaused info paused st = .ok (st', resp) := he
      unfold executeSetPaused at he
      rw [guard_eq_ok] at he
      exact absurd he.1 (not_not_intro hs)
    | _ => rfl
  have hposts := execute_posts hB (fun ws hws => by rw [hws] at hm; cases hm) he
  have hcfg := execute_config hB he
  exact ⟨hcfg.manager_eq, (hcfg.unmanaged hm).1, (hcfg.unmanaged hm).2, hposts⟩

/-- A rebalancing plan that goes through names only allowlisted destinations. -/
theorem rebalance_allowed {allowlist : List String} {denom : String} :
    ∀ {plan : List RedelegateStep} {acc acc' : RebalanceAcc},
      plan.foldlM (rebalanceStep allowlist denom) acc = .ok acc' →
      ∀ step ∈ plan, step.dstValidator ∈ allowlist := by
  intro plan
  induction plan with
  | nil => simp
  | cons step plan ih =>
    intro acc acc' h
    rw [List.foldlM_cons, bind_eq_ok] at h
    obtain ⟨mid, hmid, h⟩ := h
    unfold rebalanceStep at hmid
    rw [guard_eq_ok] at hmid
    exact List.forall_mem_cons.2 ⟨not_not.1 hmid.1, ih h⟩

/-- A redelegation to a validator on the list. -/
def CosmosMsg.RedelegatesTo (allowlist : List String) (m : CosmosMsg) : Prop :=
  ∃ src dst coin, m = .redelegate src dst coin ∧ dst ∈ allowlist

/-- **What the manager sends** stays clear of the queue and the totals. -/
theorem execute_manages (hm : msg.manages = true)
    (he : execute deps env info msg st = .ok (st', resp)) :
    st'.queue = st.queue ∧ st'.totals = st.totals ∧
      total (·.bonded) st'.validators = total (·.bonded) st.validators ∧
      ∀ m ∈ resp.messages, m.RedelegatesTo st.allowlist := by
  cases msg with
  | manager m =>
    have hmgr : executeManager info m st = .ok (st', resp) := he
    obtain ⟨-, -, -, -, hbonded, -⟩ := executeManager_slots hmgr
    refine ⟨(executeManager_still hmgr).queue, ?_, hbonded, ?_⟩
    · rcases executeManager_ok hmgr with
        ⟨_, -, -, rfl, -⟩ | ⟨_, -, -, rfl, -⟩ | ⟨_, _, -, -, rfl, -⟩ <;> rfl
    · rcases executeManager_ok hmgr with
        ⟨_, -, -, -, hmsgs⟩ | ⟨_, -, -, -, hmsgs⟩ | ⟨plan, acc, -, hacc, -, hmsgs⟩
      · simp [hmsgs]
      · simp [hmsgs]
      · -- a plan is all or nothing, so that each of its steps passed the check
        obtain ⟨-, -, -, hacc'⟩ := rebalance_ok hacc
        intro m hmem
        rw [hmsgs, hacc', List.nil_append] at hmem
        obtain ⟨step, hstep, rfl⟩ := List.mem_map.1 hmem
        exact ⟨_, _, _, rfl, rebalance_allowed hacc step hstep⟩
  | setPaused paused =>
    obtain ⟨rfl, hmsgs⟩ := executeSetPaused_ok he
    exact ⟨rfl, rfl, rfl, by simp [hmsgs]⟩
  | _ => cases hm

/-! ## Whole runs -/

variable {h : List (Call × Response)}

theorem Call.exists_execute {c : Call} (h : c.isExecute = true) :
    ∃ deps env info msg, c = .execute deps env info msg := by
  cases c with
  | execute deps env info msg => exact ⟨deps, env, info, msg, rfl⟩
  | migrate => cases h

/-- **A run from before the seed**: the deployer's one bootstrap divides it. -/
theorem Unseeded.run (h0 : Unseeded s st₀) (hB : Booked st₀) (hr : Run Step st₀ h st)
    (hx : ∀ e ∈ h, e.1.isExecute = true) :
    (∀ e ∈ h, e.1.sends ExecuteMsg.bootstraps = true → e.1.sender = some s) ∧ Booked st ∧
      (h.countP (·.1.sends ExecuteMsg.bootstraps) = 0 ∧ Unseeded s st ∨
        h.countP (·.1.sends ExecuteMsg.bootstraps) = 1 ∧ Bound st) := by
  induction hr with
  | nil => exact ⟨by simp, hB, .inl ⟨rfl, h0⟩⟩
  | @cons h st st' e hr hs ih =>
    obtain ⟨hsender, hB', hphase⟩ := ih fun e he => hx e (List.mem_cons_of_mem _ he)
    obtain ⟨call, resp⟩ := e
    obtain ⟨deps, env, info, msg, rfl⟩ := Call.exists_execute (hx _ List.mem_cons_self)
    have hexec : LstCore.execute deps env info msg st = .ok (st', resp) := hs
    rw [List.forall_mem_cons, List.countP_cons]
    rcases hphase with ⟨hcount, hU⟩ | ⟨hcount, hbound⟩
    · rcases hU.execute hB' hexec with ⟨hb, rfl, hbound⟩ | ⟨hb, hU'⟩
      · exact ⟨⟨fun _ => rfl, hsender⟩, (step_refines hB' hs).1,
          .inr ⟨by rw [hcount]; simp [hb], hbound⟩⟩
      · exact ⟨⟨fun h => absurd (hb.symm.trans h) (by simp), hsender⟩, (step_refines hB' hs).1,
          .inl ⟨by rw [hcount]; simp [hb], hU'⟩⟩
    · obtain ⟨hb, -, hbound'⟩ := hbound.execute hB' hexec
      exact ⟨⟨fun h => absurd (hb.symm.trans h) (by simp), hsender⟩, (step_refines hB' hs).1,
        .inr ⟨by rw [hcount]; simp [hb], hbound'⟩⟩

/-- **A run after the seed** moves only the fee and the pause. -/
theorem Bound.run (h0 : Bound st₀) (hB : Booked st₀) (hr : Run Step st₀ h st)
    (hx : ∀ e ∈ h, e.1.isExecute = true) :
    st₀.config.ManagedTo st.config ∧ st.allowlist = st₀.allowlist := by
  have key := hr.inv_of_mem
    (P := fun st => Booked st ∧ Bound st ∧ st₀.config.ManagedTo st.config ∧
      st.allowlist = st₀.allowlist) ⟨hB, h0, rfl, rfl⟩ ?_
  · exact key.2.2
  · rintro st ⟨call, resp⟩ st' hmem ⟨hB, hbound, hcfg, hallow⟩ hs
    obtain ⟨deps, env, info, msg, rfl⟩ := Call.exists_execute (hx _ hmem)
    obtain ⟨-, hcfg', hbound'⟩ := hbound.execute hB hs
    exact ⟨(step_refines hB hs).1, hbound', hcfg.trans hcfg',
      (execute_allowlist hB hs).trans hallow⟩

/-- **A run of somebody else's messages** leaves the manager's own alone. -/
theorem unmanaged_run (hB : Booked st₀) (hr : Run Step st₀ h st)
    (hx : ∀ e ∈ h, e.1.isExecute = true ∧ e.1.sender ≠ some st₀.config.manager) :
    st.config.params.performanceFeeBps = st₀.config.params.performanceFeeBps ∧
      st.config.paused = st₀.config.paused ∧ posts st.validators = posts st₀.validators := by
  have key := hr.inv_of_mem
    (P := fun st => Booked st ∧ st.config.manager = st₀.config.manager ∧
      st.config.params.performanceFeeBps = st₀.config.params.performanceFeeBps ∧
      st.config.paused = st₀.config.paused ∧ posts st.validators = posts st₀.validators)
    ⟨hB, rfl, rfl, rfl, rfl⟩ ?_
  · exact key.2.2
  · rintro st ⟨call, resp⟩ st' hmem ⟨hB, hmgr, hfee, hpaused, hposts⟩ hs
    obtain ⟨hexec, hsender⟩ := hx _ hmem
    obtain ⟨deps, env, info, msg, rfl⟩ := Call.exists_execute hexec
    obtain ⟨hmgr', hfee', hpaused', hposts'⟩ :=
      execute_unmanaged hB (fun heq => hsender (congrArg some (heq.trans hmgr))) hs
    exact ⟨(step_refines hB hs).1, hmgr'.trans hmgr, hfee'.trans hfee, hpaused'.trans hpaused,
      hposts'.trans hposts⟩

/-- **A run of the manager's messages** stays clear of the queue and the totals. -/
theorem managed_run (hB : Booked st₀) (hr : Run Step st₀ h st)
    (hx : ∀ e ∈ h, e.1.sends ExecuteMsg.manages = true) :
    st.queue = st₀.queue ∧ st.totals = st₀.totals ∧
      total (·.bonded) st.validators = total (·.bonded) st₀.validators ∧
      ∀ e ∈ h, ∀ m ∈ e.2.messages, m.RedelegatesTo st₀.allowlist := by
  suffices hall : Booked st ∧ st.allowlist = st₀.allowlist ∧ st.queue = st₀.queue ∧
      st.totals = st₀.totals ∧ total (·.bonded) st.validators = total (·.bonded) st₀.validators ∧
      ∀ e ∈ h, ∀ m ∈ e.2.messages, m.RedelegatesTo st₀.allowlist from hall.2.2
  induction hr with
  | nil => exact ⟨hB, rfl, rfl, rfl, rfl, by simp⟩
  | @cons h st st' e hr hs ih =>
    obtain ⟨hB', hallow, hqueue, htotals, hbonded, hmsgs⟩ :=
      ih fun e he => hx e (List.mem_cons_of_mem _ he)
    obtain ⟨call, resp⟩ := e
    have hm := hx _ List.mem_cons_self
    cases call with
    | migrate => cases hm
    | execute deps env info msg =>
      obtain ⟨hqueue', htotals', hbonded', hmsgs'⟩ := execute_manages hm hs
      exact ⟨(step_refines hB' hs).1, (execute_allowlist hB' hs).trans hallow, hqueue'.trans hqueue,
        htotals'.trans htotals, hbonded'.trans hbonded,
        List.forall_mem_cons.2 ⟨hallow ▸ hmsgs', hmsgs⟩⟩

/-- **Who may change what**, in every run of messages from an instantiation. One message at most
is a bootstrap, and it is the instantiating account's; before it nobody deposits, requests or
claims, and from it on nothing of the configuration moves but the fee and the pause. Messages of
accounts that are not the manager move neither these nor the weights and statuses. The manager's
messages move no window, claim or total, and no stake in or out of the set: they emit
redelegations to the allowlist and nothing else. -/
theorem authority_frame {msg : InstantiateMsg}
    (hi : instantiate deps env info msg = .ok (st₀, resp)) (hr : Run Step st₀ h st)
    (hx : ∀ e ∈ h, e.1.isExecute = true) :
    (h.countP (·.1.sends ExecuteMsg.bootstraps) ≤ 1 ∧
      ∀ e ∈ h, e.1.sends ExecuteMsg.bootstraps = true → e.1.sender = some info.sender) ∧
    ((∀ e ∈ h, e.1.sends ExecuteMsg.bootstraps = false) →
      ∀ deps env info msg, msg.entersOrLeaves = true →
        ∀ answer, execute deps env info msg st ≠ .ok answer) ∧
    ((∃ e ∈ h, e.1.sends ExecuteMsg.bootstraps = true) → st.config.deployer = none ∧
      ∀ h' st', Run Step st h' st' → (∀ e ∈ h', e.1.isExecute = true) →
        st.config.ManagedTo st'.config ∧ st'.allowlist = st.allowlist) ∧
    (∀ h' st', Run Step st h' st' →
      (∀ e ∈ h', e.1.isExecute = true ∧ e.1.sender ≠ some st.config.manager) →
      st'.config.params.performanceFeeBps = st.config.params.performanceFeeBps ∧
        st'.config.paused = st.config.paused ∧ posts st'.validators = posts st.validators) ∧
    (∀ h' st', Run Step st h' st' → (∀ e ∈ h', e.1.sends ExecuteMsg.manages = true) →
      st'.queue = st.queue ∧ st'.totals = st.totals ∧
        total (·.bonded) st'.validators = total (·.bonded) st.validators ∧
        ∀ e ∈ h', ∀ m ∈ e.2.messages, m.RedelegatesTo st.allowlist) := by
  have hB₀ : Booked st₀ := Instantiated.booked ⟨_, _, _, _, _, hi⟩
  obtain ⟨hsender, hB, hphase⟩ := (Instantiated.unseeded hi).run hB₀ hr hx
  refine ⟨⟨by omega, hsender⟩, fun hnone deps env info msg hmsg answer he => ?_,
    fun ⟨e, he, hb⟩ => ?_, fun h' st' hr' hx' => unmanaged_run hB hr' hx',
    fun h' st' hr' hx' => managed_run hB hr' hx'⟩
  · have hzero : h.countP (·.1.sends ExecuteMsg.bootstraps) = 0 :=
      List.countP_eq_zero.2 fun e he => by simp [hnone e he]
    rcases hphase with ⟨-, hU⟩ | ⟨hone, -⟩
    · exact absurd (hU.refuses hB he) (by simp [hmsg])
    · omega
  · have hpos : 0 < h.countP (·.1.sends ExecuteMsg.bootstraps) := List.countP_pos_iff.2 ⟨e, he, hb⟩
    rcases hphase with ⟨hzero, -⟩ | ⟨-, hbound⟩
    · omega
    · exact ⟨hbound.deployer, fun h' st' hr' hx' => hbound.run hB hr' hx'⟩

/-! ## A seed and a manager's evening -/

/-- The calls in turn, with what each answered. -/
def runCalls (calls : List Call) (st : Storage) : Option (Storage × List (Call × Response)) :=
  calls.foldlM (fun s call => (call.run s.1).toOption.map fun r => (r.1, (call, r.2) :: s.2))
    (st, [])

theorem runCalls_ok {calls : List Call} (hrun : runCalls calls st₀ = some (st, h)) :
    Run Step st₀ h st ∧ h.map (·.1) = calls.reverse := by
  have hr := Run.of_foldlM hrun
  have key : ∀ {evs s}, Run (fun s call s' => (call.run s.1).toOption.map
      (fun r => (r.1, (call, r.2) :: s.2)) = some s') (st₀, []) evs s →
      Run Step st₀ s.2 s.1 ∧ s.2.map (·.1) = evs := by
    intro evs s hr
    induction hr with
    | nil => exact ⟨.nil, rfl⟩
    | cons _ hs ih =>
      obtain ⟨⟨st', answer⟩, hcall, rfl⟩ := Option.map_eq_some_iff.1 hs
      exact ⟨ih.1.cons (toOption_eq_some.1 hcall), congrArg _ ih.2⟩
  exact key hr

/-- A message to the deployment, on a chain that holds the seed with the first validator. -/
def devMessage (sender : Addr) (funds : List Coin) (msg : ExecuteMsg) : Call :=
  .execute (devView (Uint128.new 10000000) [("validatorone", Uint128.new 10000000, 0)])
    devWorld.env ⟨sender, funds⟩ msg

def devBoot : Call :=
  devMessage "deployer" [⟨"uscrt", Uint128.new 10000000⟩] (.bootstrap "token" "tokenhash")

/-- The weights stay, the fee goes up, 4 SCRT of the seed move, and the contract is paused. -/
def devManaged : List Call :=
  [.manager (.setWeights devValidators), .manager (.setPerformanceFee 900),
    .manager (.rebalance [⟨"validatorone", "validatorthree", Uint128.new 4000000⟩]),
    .setPaused true].map (devMessage "manager" [])

set_option maxRecDepth 10000 in
/-- The deployer seeds the pool, and the manager sends everything there is to send. -/
theorem authority_frame_managed : ∃ st st' h h',
    runCalls [devBoot] devWorld.store = some (st, h) ∧ runCalls devManaged st = some (st', h') ∧
    (st.config.deployer = none ∧ st.config.ManagedTo st'.config) ∧
    st'.queue = st.queue ∧ st'.totals = st.totals ∧
    ∀ e ∈ h', ∀ m ∈ e.2.messages, m.RedelegatesTo st.allowlist := by
  have hrun : ((runCalls [devBoot] devWorld.store).bind fun s =>
      runCalls devManaged s.1).isSome = true := by decide +kernel
  obtain ⟨⟨st', h'⟩, hrun⟩ := Option.isSome_iff_exists.1 hrun
  obtain ⟨⟨st, h⟩, hseed, hmanaged⟩ := Option.bind_eq_some_iff.1 hrun
  obtain ⟨hr, hcalls⟩ := runCalls_ok hseed
  obtain ⟨hr', hcalls'⟩ := runCalls_ok hmanaged
  obtain ⟨e, rfl, he⟩ := List.map_eq_singleton_iff.1 hcalls
  have hkinds : ∀ e ∈ h', e.1.isExecute = true ∧ e.1.sends ExecuteMsg.manages = true := by
    intro e he
    have hmem : e.1 ∈ h'.map (·.1) := List.mem_map_of_mem he
    rw [hcalls', List.mem_reverse] at hmem
    have hall : ∀ call ∈ devManaged,
        call.isExecute = true ∧ call.sends ExecuteMsg.manages = true := by decide
    exact hall _ hmem
  have hinit : instantiate (devView 0 []) devWorld.env ⟨"deployer", []⟩ devInit =
      .ok (devWorld.store, ⟨[], none⟩) := by rfl
  have hboot : ∀ e' ∈ [e], e'.1.isExecute = true := by
    rintro e' (- | ⟨_, ⟨⟩⟩)
    rw [he]
    rfl
  obtain ⟨-, -, hafter, -, hmanages⟩ := authority_frame hinit hr hboot
  obtain ⟨hdeployer, hfixed⟩ := hafter ⟨e, List.mem_singleton_self _, by rw [he]; rfl⟩
  obtain ⟨hqueue, htotals, -, hmsgs⟩ := hmanages h' st' hr' fun e he => (hkinds e he).2
  exact ⟨st, st', [e], h', hseed, hmanaged,
    ⟨hdeployer, (hfixed h' st' hr' fun e he => (hkinds e he).1).1⟩, hqueue, htotals, hmsgs⟩

end LstCore
