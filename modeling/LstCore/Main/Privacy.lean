import LstCore.Lib.Machine
import LstCore.Main.Authority
import LstCore.Proof.Accept
import LstCore.Proof.Apart
import LstCore.Proof.Refine
import LstCore.Proof.World
import LstCore.Spec.Queries

/-!
# What stays private

Who asked for a withdrawal is private state: no public query tells, and a permit opens the claims of
its signer alone. `Indistinct` are the storages an account cannot tell apart, those that differ in
the claims of others. Histories that differ in who made other accounts' requests (`Cloaked`) are
answered alike and lead to such storages (`requests_stay_private`), as long as the others claim
nothing: a claim is paid in public.
-/

namespace LstCore

open Lib

variable {deps : Deps} {env : Env} {info : MessageInfo} {msg : ExecuteMsg} {st st' : Storage}
  {a : Addr}

/-- Two storages that differ in the claims of other accounts alone. -/
def Indistinct (a : Addr) (st st' : Storage) : Prop :=
  ∃ claims index, st' = st.apart st.config.paused claims index ∧
    (∀ id, claims.lookup (a, id) = st.claims.lookup (a, id)) ∧ index a = st.claimIndex a

/-! ## What can be asked -/

section Queries

variable {Permit : Type} {validate : Permit → Addr → Except StdError String}

/-- The queries an account can make: with a permit, only under its own signature. -/
def OpenTo (validate : Permit → Addr → Except StdError String) (deps : Deps) (env : Env) (a : Addr) :
    QueryMsg Permit → Prop
  | .withPermit permit _ => ∀ u, permitSigner validate deps env permit = .ok u → u = a
  | _ => True

theorem queryPendingClaims_indistinct (h : Indistinct a st st') :
    queryPendingClaims a st' = queryPendingClaims a st := by
  obtain ⟨claims, index, rfl, hclaims, hindex⟩ := h
  have hstep : pendingStep a (st.apart st.config.paused claims index) = pendingStep a st := by
    funext acc id
    unfold pendingStep
    rw [show (st.apart st.config.paused claims index).claims.lookup (a, id) = _ from hclaims id]
    rfl
  unfold queryPendingClaims
  rw [hstep, show (st.apart st.config.paused claims index).claimIndex a = _ from hindex]

/-- **An account is answered the same from both.** -/
theorem query_indistinct (h : Indistinct a st st') {q : QueryMsg Permit}
    (hq : OpenTo validate deps env a q) :
    query validate deps env st' q = query validate deps env st q := by
  cases q with
  | withPermit permit asked =>
    cases asked with
    | pendingClaims =>
      dsimp only [query]
      cases hu : permitSigner validate deps env permit with
      | error e => rfl
      | ok u =>
        obtain rfl := hq u hu
        rw [ok_bind, ok_bind, queryPendingClaims_indistinct h]
  | _ =>
    obtain ⟨claims, index, rfl, -, -⟩ := h
    rfl

end Queries

/-! ## Requests -/

/-- The account's own claim is recorded alike. -/
theorem recordClaim_own {id : ℕ} {shares owed : Uint128} (h : Indistinct a st st') :
    Alike (Indistinct a) (recordClaim a id shares owed st) (recordClaim a id shares owed st') := by
  obtain ⟨claims, index, rfl, hclaims, hindex⟩ := h
  have hput : ∀ c i, (claims.insert (a, id) c).lookup (a, i) =
      (st.claims.insert (a, id) c).lookup (a, i) := by
    intro c i
    rw [Keymap.lookup_put, Keymap.lookup_put, hclaims]
  unfold recordClaim
  rw [show (st.apart st.config.paused claims index).claims.lookup (a, id) = _ from hclaims id]
  cases st.claims.lookup (a, id) with
  | none =>
    refine .ok ⟨_, _, rfl, hput _, ?_⟩
    simp only [Function.update_self]
    exact congrArg (· ++ [id]) hindex
  | some c => exact .after _ fun _ => .after _ fun _ => .pure ⟨_, _, rfl, hput _, hindex⟩

/-- The two requests of a pair: one and the same, or each of somebody else than the account. -/
def SameAsker (deps : Deps) (a : Addr) (x y : String) : Prop :=
  x = y ∨ ∃ u v, deps.addrValidate x = .ok u ∧ deps.addrValidate y = .ok v ∧ u ≠ a ∧ v ≠ a

/-- A request joins the window alike, whoever makes it. -/
theorem joinWindow_indistinct {x y : String} {amount owed : Uint128} (hB : Booked st)
    (hB' : Booked st') (h : Indistinct a st st') (hxy : SameAsker deps a x y) :
    Alike (fun r r' => Indistinct a r.1 r'.1 ∧ r.2 = r'.2) (joinWindow deps x amount owed st)
      (joinWindow deps y amount owed st') := by
  obtain ⟨claims, index, rfl, hclaims, hindex⟩ := h
  unfold joinWindow
  refine Alike.after_ok (x := loadWindow st.windows st.openWindow) fun window hw => .after _ fun _ =>
    .after_ok fun sb hsb => .after_ok fun so hso => ?_
  replace hw : st.windows.lookup st.openWindow = some window := orErr_eq_ok.1 hw
  replace hsb : window.sharesBurned.val + amount.val < 2 ^ 128 := add_eq_ok.1 hsb ▸ sb.isLt
  replace hso : window.scrtOwed.val + owed.val < 2 ^ 128 := add_eq_ok.1 hso ▸ so.isLt
  -- the window is put in place in both, and then the claim is recorded
  set joined : UnbondWindow := { window with sharesBurned := sb, scrtOwed := so } with hjoined
  have hput : Indistinct a (st.putWindow st.openWindow joined)
      ((st.apart st.config.paused claims index).putWindow st.openWindow joined) :=
    ⟨claims, index, rfl, hclaims, hindex⟩
  have hbook : ∀ u v, (u = v ∨ u ≠ a ∧ v ≠ a) → Alike (Indistinct a)
      (recordClaim u st.openWindow amount owed (st.putWindow st.openWindow joined))
      (recordClaim v st.openWindow amount owed
        ((st.apart st.config.paused claims index).putWindow st.openWindow joined)) := by
    intro u v huv
    by_cases hu : u = a
    · obtain rfl : v = u := by
        rcases huv with h | ⟨h, -⟩
        · exact h.symm
        · exact absurd hu h
      rw [hu]
      exact recordClaim_own hput
    · have hv : v ≠ a := by
        rcases huv with h | ⟨-, h⟩
        · exact h ▸ hu
        · exact h
      have hfits : ∀ c, (st.putWindow st.openWindow joined).claims.lookup (u, st.openWindow) =
          some c → _ := fun c hc => hB.claim_fits hw hsb hso hc
      have hfits' : ∀ c, ((st.apart st.config.paused claims index).putWindow st.openWindow
          joined).claims.lookup (v, st.openWindow) = some c → _ := fun c hc =>
        hB'.claim_fits hw hsb hso hc
      obtain ⟨c₁, i₁, hr, hkeep⟩ := recordClaim_total _ hfits
      obtain ⟨c₂, i₂, hr', hkeep'⟩ := recordClaim_total _ hfits'
      obtain ⟨hc₁, hi₁⟩ := hkeep a (Ne.symm hu)
      obtain ⟨hc₂, hi₂⟩ := hkeep' a (Ne.symm hv)
      rw [hr, hr']
      exact .ok ⟨c₂, i₂, rfl, fun i => (hc₂ i).trans ((hclaims i).trans (hc₁ i).symm),
        hi₂.trans (hindex.trans hi₁.symm)⟩
  have hrest : ∀ u v, (u = v ∨ u ≠ a ∧ v ≠ a) → Alike (fun r r' => Indistinct a r.1 r'.1 ∧ r.2 = r'.2)
      (do
        let st ← recordClaim u st.openWindow amount owed (st.putWindow st.openWindow joined)
        let scrtOwedOpen ← add st.totals.scrtOwedOpen owed
        pure ({ st with totals := { st.totals with
          totalSupply := st.totals.totalSupply.satSub amount
          scrtOwedOpen := scrtOwedOpen } }, joined))
      (do
        let st ← recordClaim v st.openWindow amount owed
          ((st.apart st.config.paused claims index).putWindow st.openWindow joined)
        let scrtOwedOpen ← add st.totals.scrtOwedOpen owed
        pure ({ st with totals := { st.totals with
          totalSupply := st.totals.totalSupply.satSub amount
          scrtOwedOpen := scrtOwedOpen } }, joined)) := by
    intro u v huv
    refine (hbook u v huv).bind ?_
    rintro s _ ⟨claims, index, rfl, hc, hi⟩
    exact .after _ fun _ => .pure ⟨⟨claims, index, rfl, hc, hi⟩, rfl⟩
  rcases hxy with rfl | ⟨u, v, hu, hv, hua, hva⟩
  · exact .after _ fun u => hrest u u (.inl rfl)
  · simp only [hu, hv, liftStd, ok_bind]
    exact hrest u v (.inr ⟨hua, hva⟩)

theorem Apart.indistinct {α : Type} {x x' : Exec (Storage × α)}
    {claims : Keymap (Addr × ℕ) ClaimRecord} {index : Addr → List ℕ}
    (h : Alike (Apart st.config.paused claims index st) x x')
    (hclaims : ∀ id, claims.lookup (a, id) = st.claims.lookup (a, id))
    (hindex : index a = st.claimIndex a) :
    Alike (fun r r' => Indistinct a r.1 r'.1 ∧ r.2 = r'.2) x x' := by
  refine h.mono ?_
  rintro _ _ ⟨s, r, hs⟩
  refine ⟨⟨claims, index, by rw [hs.paused], fun id => ?_, ?_⟩, rfl⟩
  · rw [hclaims, hs.claims]
  · rw [hindex, hs.index]

theorem executeReceive_indistinct {x y : String} {amount : Uint128} {hook : Option Binary}
    (hB : Booked st) (hB' : Booked st') (h : Indistinct a st st') (hxy : SameAsker deps a x y) :
    Alike (fun r r' => Indistinct a r.1 r'.1 ∧ r.2 = r'.2)
      (executeReceive deps env info x amount hook st)
      (executeReceive deps env info y amount hook st') := by
  have hopen : st'.openWindow = st.openWindow := by
    obtain ⟨claims, index, rfl, -, -⟩ := h
    rfl
  have hask : Alike (fun r r' => Indistinct a r.1 r'.1 ∧ r.2 = r'.2)
      (requestWithdrawal deps env info x amount hook st)
      (requestWithdrawal deps env info y amount hook st') := by
    obtain ⟨claims, index, rfl, hclaims, hindex⟩ := h
    unfold requestWithdrawal priceWithdrawal
    simp only [bind_assoc, pure_bind]
    refine .after _ fun token => .ite (.error _) (.after _ fun _ => .ite (.error _) ?_)
    -- the price is read off a storage that still has the claims
    refine (Apart.indistinct pricingPool_apart hclaims hindex).of_self.bind ?_
    rintro ⟨s, pool⟩ ⟨s', _⟩ ⟨⟨hs, rfl⟩, hprice, hprice'⟩
    have hstill := (refreshTotals_still (pricingPool_eq_ok.1 hprice).1).1
    have hstill' := (refreshTotals_still (pricingPool_eq_ok.1 hprice').1).1
    refine .after _ fun owed => .ite (.error _) ?_
    refine (joinWindow_indistinct (hB.still hstill) (hB'.still hstill') hs hxy).bind ?_
    rintro ⟨t, window⟩ ⟨t', _⟩ ⟨ht, rfl⟩
    exact .pure ⟨ht, rfl⟩
  unfold executeReceive
  rw [hopen]
  refine hask.bind ?_
  rintro ⟨s, r⟩ ⟨s', _⟩ ⟨⟨claims, index, rfl, hclaims, hindex⟩, rfl⟩
  refine (Apart.indistinct closeWindowIfOverdue_apart hclaims hindex).bind ?_
  rintro ⟨t, closing⟩ ⟨_, _⟩ ⟨⟨claims, index, rfl, hc, hi⟩, rfl⟩
  exact .pure ⟨⟨claims, index, rfl, hc, hi⟩, rfl⟩

/-! ## Claims of one's own -/

/-- The accumulators of two claim loops that differ in the claims of others alone. -/
def ClaimAcc.Indistinct (a : Addr) (acc acc' : ClaimAcc) : Prop :=
  ∃ claims, acc' = { acc with claims := claims } ∧
    ∀ id, claims.lookup (a, id) = acc.claims.lookup (a, id)

theorem claimStep_indistinct {now id : ℕ} {acc acc' : ClaimAcc} (h : acc.Indistinct a acc') :
    Alike (ClaimAcc.Indistinct a) (claimStep now a acc id) (claimStep now a acc' id) := by
  have hsame := h
  obtain ⟨claims, rfl, hclaims⟩ := h
  unfold claimStep
  rw [show ({ acc with claims := claims } : ClaimAcc).claims.lookup (a, id) = _ from hclaims id]
  cases acc.claims.lookup (a, id) with
  | none => exact .ok hsame
  | some c =>
    refine .ite (.ok hsame) (.after (loadWindow acc.windows id) fun window => ?_)
    dsimp only
    split
    · refine .after _ fun _ => .after _ fun _ => .after _ fun _ => .pure ⟨_, rfl, fun i => ?_⟩
      rw [Keymap.lookup_put, Keymap.lookup_put, hclaims]
    · exact .error _
    · exact .pure hsame

theorem executeClaimMatured_indistinct {windowIds : Option (List ℕ)} (h : Indistinct info.sender st st') :
    Alike (fun r r' => Indistinct info.sender r.1 r'.1 ∧ r.2 = r'.2)
      (executeClaimMatured deps env info windowIds st)
      (executeClaimMatured deps env info windowIds st') := by
  obtain ⟨claims, index, rfl, hclaims, hindex⟩ := h
  unfold executeClaimMatured
  refine (Apart.indistinct matureDueWindows_apart hclaims hindex).bind ?_
  rintro ⟨s, matured⟩ ⟨_, _⟩ ⟨⟨claims, index, rfl, hclaims, hindex⟩, rfl⟩
  have hids : claimIds info.sender windowIds (s.apart s.config.paused claims index) =
      claimIds info.sender windowIds s := congrArg windowIds.getD hindex
  have hloop : ∀ ids : List ℕ, Alike (ClaimAcc.Indistinct info.sender)
      (ids.foldlM (claimStep env.time info.sender) ⟨s.windows, s.claims, 0, []⟩)
      (ids.foldlM (claimStep env.time info.sender) ⟨s.windows, claims, 0, []⟩) := by
    intro ids
    have h0 : ClaimAcc.Indistinct info.sender ⟨s.windows, s.claims, 0, []⟩
        ⟨s.windows, claims, 0, []⟩ := ⟨claims, rfl, hclaims⟩
    have hstep : ∀ acc acc' id, ClaimAcc.Indistinct info.sender acc acc' →
        Alike (ClaimAcc.Indistinct info.sender) (claimStep env.time info.sender acc id)
          (claimStep env.time info.sender acc' id) := fun _ _ _ => claimStep_indistinct
    exact Alike.foldlM hstep ids h0
  dsimp only
  rw [hids]
  refine (hloop _).bind ?_
  rintro acc _ ⟨claims, rfl, hclaims⟩
  refine .ite (.error _) (.pure ⟨⟨claims, index, ?_, ?_, ?_⟩, rfl⟩)
  all_goals simp only [pruneSettledWindows_eq]
  · rfl
  · exact hclaims
  · exact hindex

/-! ## Calls -/

/-- Two calls that differ in who made a request at most, neither of them the account; a claim has to
be the account's own. -/
inductive Cloaked (a : Addr) : Call → Call → Prop
  | same (c : Call) (h : ∀ deps env info ids, c = .execute deps env info (.claimMatured ids) →
      info.sender = a) : Cloaked a c c
  | request (deps : Deps) (env : Env) (info : MessageInfo) (sender sender' : String) {x y : String}
      {u v : Addr} (amount : Uint128) (hook : Option Binary) (hx : deps.addrValidate x = .ok u)
      (hy : deps.addrValidate y = .ok v) (hu : u ≠ a) (hv : v ≠ a) :
      Cloaked a (.execute deps env info (.receive sender x amount hook))
        (.execute deps env info (.receive sender' y amount hook))

/-- A message that neither makes nor claims a request. -/
theorem execute_indistinct (h : Indistinct a st st') (hm : msg.booksClaims = false) :
    Alike (fun r r' => Indistinct a r.1 r'.1 ∧ r.2 = r'.2) (execute deps env info msg st)
      (execute deps env info msg st') := by
  obtain ⟨claims, index, rfl, hclaims, hindex⟩ := h
  have hsame : ∀ {x x' : Exec (Storage × Response)},
      Alike (Apart st.config.paused claims index st) x x' →
      Alike (fun r r' => Indistinct a r.1 r'.1 ∧ r.2 = r'.2) x x' := fun h =>
    Apart.indistinct h hclaims hindex
  cases msg with
  | receive s x n hook => cases hm
  | claimMatured ids => cases hm
  | deposit =>
    refine Alike.bind (Apart.indistinct acceptDeposit_apart hclaims hindex) ?_
    rintro ⟨s, r⟩ ⟨_, _⟩ ⟨⟨claims, index, rfl, hclaims, hindex⟩, rfl⟩
    refine (Apart.indistinct closeWindowIfOverdue_apart hclaims hindex).bind ?_
    rintro ⟨t, closing⟩ ⟨_, _⟩ ⟨ht, rfl⟩
    exact .pure ⟨ht, rfl⟩
  | setPaused p =>
    unfold execute executeSetPaused
    exact .ite (.error _) (.ok ⟨⟨claims, index, rfl, hclaims, hindex⟩, rfl⟩)
  | advanceWindow => exact hsame executeAdvanceWindow_apart
  | collectMatured limit => exact hsame executeCollectMatured_apart
  | compound limit => exact hsame executeCompound_apart
  | sync limit => exact hsame executeSync_apart
  | manager m => exact hsame executeManager_apart
  | bootstrap address codeHash => exact hsame executeBootstrap_apart

theorem call_indistinct {c d : Call} (hB : Booked st) (hB' : Booked st') (h : Indistinct a st st')
    (hcd : Cloaked a c d) :
    Alike (fun r r' => Indistinct a r.1 r'.1 ∧ r.2 = r'.2) (c.run st) (d.run st') := by
  cases hcd with
  | request deps env info sender sender' amount hook hx hy hu hv =>
    exact executeReceive_indistinct hB hB' h (.inr ⟨_, _, hx, hy, hu, hv⟩)
  | same _ hown =>
    cases c with
    | migrate =>
      obtain ⟨claims, index, rfl, hclaims, hindex⟩ := h
      exact Apart.indistinct migrate_apart hclaims hindex
    | execute deps env info msg =>
      cases hm : msg.booksClaims with
      | false => exact execute_indistinct h hm
      | true =>
        cases msg with
        | claimMatured ids =>
          obtain rfl := hown deps env info ids rfl
          exact executeClaimMatured_indistinct h
        | receive s x n hook => exact executeReceive_indistinct hB hB' h (.inl rfl)
        | _ => cases hm

/-- **Who asked stays private.** Take two histories from one reachable storage that differ in who
made the requests of others than the account at most, and in which no other account claims. They
get the same answers and refusals, and every query the account can make is answered the same at
their ends. -/
theorem requests_stay_private {Permit : Type} {calls calls' : List Call} (hst : Reachable st)
    (hcalls : List.Forall₂ (Cloaked a) calls calls') :
    (attempts Call.run st calls).2 = (attempts Call.run st calls').2 ∧
    ∀ (validate : Permit → Addr → Except StdError String) deps env q, OpenTo validate deps env a q →
      query validate deps env (attempts Call.run st calls').1 q =
        query validate deps env (attempts Call.run st calls).1 q := by
  have hB := hst.booked
  have hself : Indistinct a st st := ⟨st.claims, st.claimIndex, rfl, fun _ => rfl, rfl⟩
  have hstep : ∀ s t c d, Booked s ∧ Booked t ∧ Indistinct a s t → Cloaked a c d →
      Alike (fun r r' => (Booked r.1 ∧ Booked r'.1 ∧ Indistinct a r.1 r'.1) ∧ r.2 = r'.2)
        (c.run s) (d.run t) := by
    rintro s t c d ⟨hs, ht, hst⟩ hcd
    refine (call_indistinct hs ht hst hcd).of_self.mono ?_
    rintro ⟨s', r⟩ ⟨t', _⟩ ⟨⟨h, rfl⟩, hc, hd⟩
    have hs' : Booked s' := (step_refines (e := (c, r)) hs hc).1
    have ht' : Booked t' := (step_refines (e := (d, r)) ht hd).1
    exact ⟨⟨hs', ht', h⟩, rfl⟩
  obtain ⟨⟨-, -, hend⟩, hanswers⟩ := attempts_alike hstep hcalls ⟨hB, hB, hself⟩
  exact ⟨hanswers, fun validate deps env q hq => query_indistinct hend hq⟩

/-- A request to withdraw 40 SCRT. -/
def devAsk (w : World) (user : Addr) : List Call :=
  [.execute (w.deps devBonded 0) w.env ⟨"token", []⟩ (devUnbond user (Uint128.new 40000000))]

set_option maxRecDepth 10000 in
/-- The claim is the user's or another's, and a watcher sees the same windows. -/
theorem requests_stay_private_watched : ∃ w : World, Reachable w.store ∧
    ((attempts Call.run w.store (devAsk w "user")).1.claims.lookup ("user", 0)).isSome ∧
    ((attempts Call.run w.store (devAsk w "other")).1.claims.lookup ("other", 0)).isSome ∧
    query (fun _ _ => .ok "watcher") (w.deps devBonded 0) w.env
        (attempts Call.run w.store (devAsk w "other")).1 (.windows none none none : QueryMsg Unit) =
      query (fun _ _ => .ok "watcher") (w.deps devBonded 0) w.env
        (attempts Call.run w.store (devAsk w "user")).1 (.windows none none none : QueryMsg Unit) := by
  have hrun : ([devBootstrap, devDeposit].foldlM World.step devWorld).map (fun w =>
      (((attempts Call.run w.store (devAsk w "user")).1.claims.lookup ("user", 0)).isSome,
        ((attempts Call.run w.store (devAsk w "other")).1.claims.lookup ("other", 0)).isSome)) =
      some (true, true) := by
    decide +kernel
  obtain ⟨w, hw, hs⟩ := Option.map_eq_some_iff.1 hrun
  obtain ⟨huser, hother⟩ := Prod.mk.inj hs
  have hr : Reachable w.store := World.replay_reachable devWorld_fresh hw
  refine ⟨w, hr, huser, hother, ?_⟩
  have hcalls : List.Forall₂ (Cloaked "watcher") (devAsk w "user") (devAsk w "other") :=
    .cons (.request (w.deps devBonded 0) w.env ⟨"token", []⟩ "user" "other" _ _ rfl rfl
      (by decide) (by decide)) .nil
  exact (requests_stay_private hr hcalls).2 (fun _ _ => .ok "watcher") (w.deps devBonded 0) w.env _
    trivial

end LstCore
