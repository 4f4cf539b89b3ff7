import LstCore.Main.Solvency

/-!
# Claiming is not a race

Whoever claims first has every window that is due marked, and what is marked is what anybody
else's claim would have marked. From then on a claim is a share of its own window, which the claims
of others neither shrink nor block; a window that they settle has nothing left for anybody. So
accounts that claim in one block are paid the same in every order (`claim_order`), unless one of
them brings money along.

* `Queue.payout`: what an account gets for the windows it names.
* `Payment.undisturbed`: what it would get is the same after somebody else has been paid.
* `claim_tx`: a claim in a world pays exactly this, or nothing happens.
-/

namespace LstCore

open Lib

variable {q q' : Queue} {u v : Addr} {id : ℕ} {st st₁ st₂ st' : Storage} {env : Env} {ids : List ℕ}
  {now limit : ℕ} {balance : Uint128} {rets rets' : List (ℕ × Uint128)} {paid : Uint128}
  {hist : List Move}

/-! ## What a claim is worth -/

open Classical in
/-- What an account gets for the windows it names: nothing where a claim of its is still in flight,
and what is due on each of them once otherwise. -/
noncomputable def Queue.payout (q : Queue) (u : Addr) (ids : List ℕ) : ℕ :=
  if ∃ id ∈ ids, q.blocked u id then 0 else ∑ id ∈ ids.toFinset, q.dueTo u id

namespace Queue

theorem dueTo_congr {i : ℕ} (hc : q'.claims.lookup (u, i) = q.claims.lookup (u, i))
    (hw : q'.windows.lookup i = q.windows.lookup i) :
    q'.dueTo u i = q.dueTo u i ∧ (q'.blocked u i ↔ q.blocked u i) := by
  unfold dueTo blocked
  rw [hc, hw]
  exact ⟨rfl, Iff.rfl⟩

theorem payout_congr (h : ∀ i, q'.dueTo u i = q.dueTo u i ∧ (q'.blocked u i ↔ q.blocked u i))
    (ids : List ℕ) : q'.payout u ids = q.payout u ids := by
  have hex : (∃ id ∈ ids, q'.blocked u id) ↔ ∃ id ∈ ids, q.blocked u id :=
    exists_congr fun i => and_congr_right fun _ => (h i).2
  unfold payout
  by_cases hbl : ∃ id ∈ ids, q.blocked u id
  · rw [if_pos hbl, if_pos (hex.2 hbl)]
  · rw [if_neg hbl, if_neg (mt hex.1 hbl)]
    exact Finset.sum_congr rfl fun i _ => (h i).1

theorem not_blocked {w : UnbondWindow} (hw : q.windows.lookup id = some w)
    (hs : w.state ≠ .unbonding) : ¬ q.blocked u id := by
  rintro ⟨c, w', -, -, hw', hs'⟩
  rw [hw] at hw'
  cases hw'
  exact hs hs'

/-- **A payment settles a window only when it leaves nothing** for the claims still open on it. -/
theorem Claims.worth_of_settled {w : UnbondWindow} {sc : Uint128} {d : ClaimRecord} (hC' : q'.Claims)
    (hw' : q'.windows.lookup id = some (w.paying sc)) (hd : q'.claims.lookup (u, id) = some d)
    (hu : d.claimed = false) (hset : w.payable ≤ sc) : worth w d = 0 := by
  have hle := hC'.worth_le_outstanding hw' hd hu
  have hsame : worth (w.paying sc) d = worth w d := by simp [worth]
  rw [hsame, UnbondWindow.scrtClaimed_paying, UnbondWindow.payable_paying] at hle
  rw [Word.le_def] at hset
  omega

/-- What is due to another account on the window paid stays due. -/
theorem Step.pay_other {p : Uint128} (hS : q.Shape) (hC : q.Claims)
    (hs : Step q (.pay v id p) q') (hv : v ≠ u) : q'.dueTo u id = q.dueTo u id := by
  have hC' := hC.step hS hs
  obtain ⟨w, c, sc, hw, hm, hc, -, hp, hsc, -, hwin, hcl⟩ := hs.pay_windows
  have hw' : q'.windows.lookup id = some (w.paying sc) := by
    rw [hwin, Keymap.lookup_put, if_pos rfl]
  have hd' : q'.claims.lookup (u, id) = q.claims.lookup (u, id) := by
    rw [hcl, Keymap.lookup_put, if_neg fun he => hv (Prod.mk.inj he).1.symm]
  rcases hd : q.claims.lookup (u, id) with _ | d
  · rw [dueTo_of_none hd, dueTo_of_none (hd'.trans hd)]
  rcases hu : d.claimed
  · rw [dueTo_of_matured hd hu hw hm]
    by_cases hset : w.payable ≤ sc
    · -- the window settles, and there was nothing left in it
      rw [hC'.worth_of_settled hw' (hd'.trans hd) hu hset]
      simp [dueTo, hd'.trans hd, hw', UnbondWindow.state_paying, hset]
    · have hm' : (w.paying sc).state = .matured := by
        rw [UnbondWindow.state_paying, if_neg hset, hm]
      rw [dueTo_of_matured (hd'.trans hd) hu hw' hm']
      simp [worth]
  · simp [dueTo, hd, hd', hu, hw, hw']

/-- A payment to somebody else, or one of nothing, leaves what an account can be paid as it was. -/
theorem Step.pay_undisturbed {p : Uint128} (hS : q.Shape) (hC : q.Claims)
    (hs : Step q (.pay v id p) q') (hother : v = u → p.val = 0) (i : ℕ) :
    q'.dueTo u i = q.dueTo u i ∧ (q'.blocked u i ↔ q.blocked u i) := by
  obtain ⟨hpaid, -⟩ := dueTo_pay hs
  obtain ⟨w, c, sc, hw, hm, hc, hu, hp, -, -, hwin, hcl⟩ := hs.pay_windows
  by_cases hi : i = id
  · subst hi
    constructor
    · by_cases hv : v = u
      · subst hv
        rw [hpaid, dueTo_of_matured hc hu hw hm, ← hp, hother rfl]
      · exact hs.pay_other hS hC hv
    · have hw' : q'.windows.lookup i = some (w.paying sc) := by
        rw [hwin, Keymap.lookup_put, if_pos rfl]
      refine iff_of_false (not_blocked hw' ?_) (not_blocked hw (by simp [hm]))
      rw [UnbondWindow.state_paying, hm]
      split <;> simp
  · refine dueTo_congr ?_ ?_
    · rw [hcl, Keymap.lookup_put, if_neg fun he => hi (Prod.mk.inj he).2]
    · rw [hwin, Keymap.lookup_put, if_neg hi]

end Queue

/-- **What an account would get is the same after somebody else has been paid.** -/
theorem Payment.undisturbed (hB : Booked st) (hP : Payment env v ids st st' paid hist) (hne : u ≠ v)
    (named : List ℕ) : st'.queue.payout u named = st.queue.payout u named := by
  have hzero : ∀ m ∈ hist, m.payoutTo u = 0 := fun m hm =>
    List.sum_eq_zero_iff.1 (hP.toOther u hne) _ (List.mem_map_of_mem hm)
  have key := hP.run.inv_of_mem
    (P := fun q => q.Shape ∧ q.Claims ∧ ∀ i, q.dueTo u i = st.queue.dueTo u i ∧
      (q.blocked u i ↔ st.queue.blocked u i))
    ⟨hB.shape, hB.claims, fun _ => ⟨rfl, Iff.rfl⟩⟩ ?_
  · exact Queue.payout_congr key.2.2 named
  · rintro q m q' hm ⟨hS, hC, hsame⟩ hs
    refine ⟨hS.step hs, hC.step hS hs, fun i => ?_⟩
    have hpay := hP.isPay m hm
    have hz := hzero m hm
    cases m with
    | pay v' id p =>
      have hother : v' = u → p.val = 0 := fun he => by rwa [Move.payoutTo, if_pos he] at hz
      obtain ⟨hdue, hbl⟩ := hs.pay_undisturbed hS hC hother i
      exact ⟨hdue.trans (hsame i).1, hbl.trans (hsame i).2⟩
    | _ => exact hpay.elim

/-! ## Who marks -/

/-- **Marking has one outcome.** -/
theorem Marking.unique (hM : Marking now limit balance st st₁ rets)
    (hM' : Marking now limit balance st st₂ rets') : st₂ = st₁ := by
  have hids : rets'.map (·.1) = rets.map (·.1) := hM'.due.trans hM.due.symm
  have hvals : rets'.map (·.2.val) = rets.map (·.2.val) := by
    rw [hM'.amounts, hids, ← hM.amounts]
  have hamounts : rets'.map (·.2) = rets.map (·.2) := by
    refine List.map_injective_iff.2 (fun x y hxy => Word.ext hxy : Function.Injective Word.val) ?_
    rw [List.map_map, List.map_map]
    exact hvals
  obtain rfl : rets' = rets := by
    rw [List.zip_of_prod hids hamounts, ← List.zip_of_prod rfl rfl]
  have hunbonding : st₂.totals.scrtOwedUnbonding = st₁.totals.scrtOwedUnbonding :=
    Word.ext (hM'.owedUnbonding.trans hM.owedUnbonding.symm)
  have hmatured : st₂.totals.scrtOwedMatured = st₁.totals.scrtOwedMatured :=
    Word.ext (hM'.owedMatured.trans hM.owedMatured.symm)
  rw [hM'.frame, hM.frame, hunbonding, hmatured]

/-- **After a claim nothing is left to mark**, at the same time and whatever the balance. -/
theorem Marking.idle {env : Env} {balance' : Uint128} (hS : Slotted st) (hB : Booked st)
    (hM : Marking now u32Max balance st st₁ rets) (hP : Payment env v ids st₁ st' paid hist)
    (hM' : Marking now limit balance' st' st₂ rets') : st₂.queue = st'.queue := by
  have hflight := hP.run.inv_of_mem
    (P := fun q => ∀ id w, q.windows.lookup id = some w → w.state = .unbonding →
      st₁.queue.windows.lookup id = some w)
    (fun _ _ hw _ => hw) fun q m q' hm hold hs id w hw hf => ?_
  · have hnil : rets' = [] := by
      refine List.eq_nil_iff_forall_not_mem.2 fun ret hret => ?_
      obtain ⟨w, hw, hf, hdue, -⟩ := hM'.window hret
      have hlt := ((hM.in_flight_iff hS hB).1 ⟨hflight _ w hw hf, hf⟩).2.2
      omega
    rw [hM'.queue_eq, hnil]
    rfl
  · -- payments put nothing in flight
    rcases hs.in_flight hw hf with hw | ⟨_, _, _, _, _, rfl, -⟩
    · exact hold id w hw hf
    · exact (hP.isPay _ hm).elim

/-! ## Claims in a world -/

variable {w w' : World} {t : Tx} {ts ts' : List Tx}

namespace World

/-- A transaction attempted: one that fails is undone. -/
def attempt (w : World) (t : Tx) : World := (w.tx t).getD w

/-- What a transaction sends an account: nothing where it fails. -/
def sends (w : World) (t : Tx) (u : Addr) : ℕ :=
  match w.tx t, w.call t with
  | some _, some (_, _, resp) => sentTo u resp.messages
  | _, _ => 0

/-- What transactions attempted in turn send an account. -/
def sendsAll (u : Addr) : World → List Tx → ℕ
  | _, [] => 0
  | w, t :: ts => w.sends t u + sendsAll u (w.attempt t) ts

end World

namespace Tx

/-- A claim that brings no money along. -/
def Claims (denom : String) (t : Tx) : Prop :=
  (∃ windowIds, t.msg = .claimMatured windowIds) ∧ amountIn denom t.info.funds = 0

/-- The windows that a claim names. -/
def named (t : Tx) (st : Storage) : List ℕ :=
  match t.msg with
  | .claimMatured windowIds => claimIds t.info.sender windowIds st
  | _ => []

/-- What a claim pays once what is due is marked. -/
noncomputable def payout (t : Tx) (st : Storage) : ℕ :=
  st.queue.payout t.info.sender (t.named st)

end Tx

/-- **A claim in a world** pays what it is worth, or fails and changes nothing. -/
theorem claim_tx (hs : Solvent w) (hM : Marking w.now u32Max w.balance w.store st₁ rets)
    (ht : t.Claims w.store.config.bondedDenom) :
    (w.tx t = none ∧ t.payout st₁ = 0) ∨
      ∃ w' paid hist, w.tx t = some w' ∧ w'.now = w.now ∧
        (∀ u, w.sends t u = if t.info.sender = u then t.payout st₁ else 0) ∧
        Payment w.env t.info.sender (t.named st₁) st₁ w'.store paid hist := by
  obtain ⟨⟨windowIds, hmsg⟩, hfunds⟩ := ht
  have hnamed : t.named st₁ = claimIds t.info.sender windowIds st₁ := by
    unfold Tx.named
    rw [hmsg]
  have hfunded : w.funded t.info = some w.balance :=
    World.funded_eq_some.2 (by rw [hfunds, Nat.add_zero])
  rcases htx : w.tx t with _ | w'
  · refine .inl ⟨rfl, ?_⟩
    by_contra hpos
    -- what is worth something succeeds, and its payment goes through
    obtain ⟨st₂, marked, hmat⟩ :=
      matureDueWindows_total hs.booked u32Max (w.deps_balance t.view w.balance)
    obtain ⟨b, rets', hb, hM', -⟩ := matureDueWindows_ok hs.booked hmat
    rw [World.deps_balance, Except.ok.injEq] at hb
    subst hb
    obtain rfl := hM.unique hM'
    unfold Tx.payout Queue.payout at hpos
    rw [hnamed] at hpos
    split at hpos
    · exact hpos rfl
    · rename_i hfree
      obtain ⟨st', resp, paid, hist, hok, -⟩ := executeClaimMatured_pays t.info windowIds hmat
        (hs.booked.marking hM') (fun id hid hbl => hfree ⟨id, hid, hbl⟩) (Nat.pos_of_ne_zero hpos)
      have hcall : w.call t = some (w.balance, st', resp) :=
        World.call_eq_some.2 ⟨hfunded, by rw [hmsg]; exact hok⟩
      obtain ⟨w', htx', -⟩ := hs.claim_runs hmsg hcall
      rw [htx] at htx'
      cases htx'
  · obtain ⟨b, store, resp, till, hb, he, hrun, rfl⟩ := World.tx_ok htx
    have hcall : w.call t = some (b, store, resp) := World.call_eq_some.2 ⟨hb, he⟩
    rw [hfunded, Option.some.injEq] at hb
    subst hb
    rw [hmsg] at he
    obtain ⟨b, rets', st₂, paid, hist, hb, hM', -, hP, -, hmsgs⟩ := executeClaimMatured_ok hs.booked he
    rw [World.deps_balance, Except.ok.injEq] at hb
    subst hb
    obtain rfl := hM.unique hM'
    have hpaid : t.payout st₂ = paid.val := by
      unfold Tx.payout Queue.payout
      rw [hnamed, if_neg fun ⟨id, hid, hbl⟩ => hP.free id hid hbl, hP.amount]
    refine .inr ⟨_, paid, hist, rfl, rfl, fun u => ?_, by rw [hnamed]; exact hP⟩
    unfold World.sends
    rw [htx, hcall, hpaid]
    simp [hmsgs, sentTo]

/-- In every solvent world marking has an outcome. -/
theorem Solvent.exists_marking (hs : Solvent w) :
    ∃ st₁ rets, Marking w.now u32Max w.balance w.store st₁ rets := by
  obtain ⟨st₁, marked, hmat⟩ :=
    matureDueWindows_total hs.booked u32Max (w.deps_balance (devView 0 []) w.balance)
  obtain ⟨b, rets, hb, hM, -⟩ := matureDueWindows_ok hs.booked hmat
  rw [World.deps_balance, Except.ok.injEq] at hb
  subst hb
  exact ⟨st₁, rets, hM⟩

/-- **After a claim has been attempted**, those of other accounts are worth what they were. -/
theorem claim_attempt (hs : Solvent w) (hM : Marking w.now u32Max w.balance w.store st₁ rets)
    (ht : t.Claims w.store.config.bondedDenom) : Solvent (w.attempt t) ∧
      (w.attempt t).store.config.bondedDenom = w.store.config.bondedDenom ∧
      ∃ st₂ rets', Marking (w.attempt t).now u32Max (w.attempt t).balance (w.attempt t).store st₂ rets' ∧
        ∀ t' : Tx, t'.info.sender ≠ t.info.sender → t'.payout st₂ = t'.payout st₁ := by
  rcases claim_tx hs hM ht with ⟨htx, -⟩ | ⟨w', paid, hist, htx, hnow, -, hP⟩
  · have hsame : w.attempt t = w := by
      unfold World.attempt
      rw [htx]
      rfl
    rw [hsame]
    exact ⟨hs, rfl, st₁, rets, hM, fun _ _ => rfl⟩
  · have hnext : w.attempt t = w' := by
      unfold World.attempt
      rw [htx]
      rfl
    rw [hnext]
    have hs' := hs.tx htx
    obtain ⟨st₂, rets', hM'⟩ := hs'.exists_marking
    refine ⟨hs', by rw [hP.frame, hM.frame], st₂, rets', hM', fun t' hne => ?_⟩
    rw [hnow] at hM'
    have hq : st₂.queue = w'.store.queue := hM.idle hs.slotted hs.booked hP hM'
    have hindex : st₂.claimIndex = st₁.claimIndex := by
      have h1 : st₂.claimIndex = w'.store.claimIndex := congrArg Queue.claimIndex hq
      rw [h1, hP.frame]
    have hnamed : t'.named st₂ = t'.named st₁ := by
      unfold Tx.named claimIds
      rw [hindex]
    unfold Tx.payout
    rw [hnamed, hq, hP.undisturbed (hs.booked.marking hM) hne]

/-- **Claims attempted in turn** pay each account what its claim was worth at the outset. -/
theorem sendsAll_eq (u : Addr) : ∀ {ts : List Tx} {w : World} {st₁ : Storage}
    {rets : List (ℕ × Uint128)}, Solvent w → Marking w.now u32Max w.balance w.store st₁ rets →
    (∀ t ∈ ts, t.Claims w.store.config.bondedDenom) → (ts.map (·.info.sender)).Nodup →
    w.sendsAll u ts = (ts.map fun t => if t.info.sender = u then t.payout st₁ else 0).sum := by
  intro ts
  induction ts with
  | nil => intros; rfl
  | cons t ts ih =>
    intro w st₁ rets hs hM hclaims hnd
    obtain ⟨ht, hts⟩ := List.forall_mem_cons.1 hclaims
    obtain ⟨hnew, hnd⟩ := List.nodup_cons.1 hnd
    obtain ⟨hs', hdenom, st₂, rets', hM', hsame⟩ := claim_attempt hs hM ht
    have hsent : w.sends t u = if t.info.sender = u then t.payout st₁ else 0 := by
      rcases claim_tx hs hM ht with ⟨htx, hz⟩ | ⟨_, _, _, -, -, hsends, -⟩
      · unfold World.sends
        rw [htx, hz, ite_self]
      · exact hsends u
    have hrest : (ts.map fun t => if t.info.sender = u then t.payout st₂ else 0) =
        ts.map fun t => if t.info.sender = u then t.payout st₁ else 0 :=
      List.map_congr_left fun t' ht' => by
        have hne : t'.info.sender ≠ t.info.sender := fun he => hnew (List.mem_map.2 ⟨t', ht', he⟩)
        rw [hsame t' hne]
    rw [World.sendsAll, ih hs' hM' (by rw [hdenom]; exact hts) hnd, hrest, hsent, List.map_cons,
      List.sum_cons]

/-- **Claiming is not a race.** In every reachable world, claims of different accounts that bring no
uscrt along pay each account the same in every order in which they are attempted. -/
theorem claim_order (h : World.Reaches World.step w) (hp : ts.Perm ts')
    (hclaims : ∀ t ∈ ts, t.Claims w.store.config.bondedDenom)
    (hnd : (ts.map (·.info.sender)).Nodup) (u : Addr) : w.sendsAll u ts = w.sendsAll u ts' := by
  have hs : Solvent w := h.inv (fun _ hf => hf.solvent) fun _ _ _ hP hs => hP.step hs
  obtain ⟨st₁, rets, hM⟩ := hs.exists_marking
  have hclaims' : ∀ t ∈ ts', t.Claims w.store.config.bondedDenom := fun t ht =>
    hclaims t (hp.mem_iff.2 ht)
  rw [sendsAll_eq u hs hM hclaims hnd,
    sendsAll_eq u hs hM hclaims' ((hp.map _).nodup_iff.1 hnd)]
  exact (hp.map _).sum_eq

/-! ## A window that came back short -/

/-- Two accounts are owed 40 and 20 SCRT by a window that comes back with 30. -/
def devShort : List Event :=
  [devBootstrap, devDeposit, devWithdraw,
    devTx (devView (Uint128.new 70000000) [("validatorone", Uint128.new 10000000, 0),
      ("validatortwo", Uint128.new 100000000, 0)]) "token" 0 (devUnbond "other" (Uint128.new 20000000)),
    .time (devStart + 5 * 86400), devTx devBonded "keeper" 0 .advanceWindow,
    .time (devStart + 26 * 86400), .credit 0 (Uint128.new 30000000)]

/-- A claim of an account that brings some uscrt along. -/
def devClaimTx (sender : Addr) (funds : List Coin) (windowIds : Option (List ℕ)) : Tx :=
  ⟨devBonded, ⟨sender, funds⟩, .claimMatured windowIds⟩

def devUserClaim : Tx := devClaimTx "user" [] none

def devOtherClaim : Tx := devClaimTx "other" [] (some [0])

set_option maxRecDepth 10000 in
/-- Whoever of the two comes first, 20 of the 30 SCRT are the one's and 10 the other's. -/
theorem claim_order_short : ∃ w, devShort.foldlM World.step devWorld = some w ∧
    w.sendsAll "user" [devUserClaim, devOtherClaim] = 20000000 ∧
    w.sendsAll "user" [devOtherClaim, devUserClaim] = 20000000 := by
  have hrun : (devShort.foldlM World.step devWorld).map (fun w =>
      w.sendsAll "user" [devUserClaim, devOtherClaim]) = some 20000000 := by decide +kernel
  obtain ⟨w, hw, hs⟩ := Option.map_eq_some_iff.1 hrun
  have hclaims : ∀ t ∈ [devUserClaim, devOtherClaim], t.Claims w.store.config.bondedDenom :=
    List.forall_mem_cons.2 ⟨⟨⟨none, rfl⟩, rfl⟩, List.forall_mem_singleton.2 ⟨⟨some [0], rfl⟩, rfl⟩⟩
  have hperm : [devUserClaim, devOtherClaim].Perm [devOtherClaim, devUserClaim] := .swap ..
  have horder := claim_order ⟨_, World.along_replay devWorld_fresh hw⟩ hperm hclaims (by decide) "user"
  exact ⟨w, hw, hs, horder.symm.trans hs⟩

def devToppedUp : Tx := devClaimTx "user" [⟨"uscrt", Uint128.new 30000000⟩] none

set_option maxRecDepth 10000 in
/-- A claim that brings 30 SCRT along fills the window up, for itself and for those behind it. -/
theorem funded_claims_race : ¬ ∀ (w : World) (ts ts' : List Tx) (u : Addr),
    World.Reaches World.step w → ts.Perm ts' →
    (∀ t ∈ ts, ∃ windowIds, t.msg = .claimMatured windowIds) →
    (ts.map (·.info.sender)).Nodup → w.sendsAll u ts = w.sendsAll u ts' := by
  have hrun : (devShort.foldlM World.step devWorld).map (fun w =>
      (w.sendsAll "other" [devToppedUp, devOtherClaim],
        w.sendsAll "other" [devOtherClaim, devToppedUp])) = some (20000000, 10000000) := by
    decide +kernel
  obtain ⟨w, hw, hs⟩ := Option.map_eq_some_iff.1 hrun
  obtain ⟨hfirst, hsecond⟩ := Prod.mk.inj hs
  intro hall
  have hclaims : ∀ t ∈ [devToppedUp, devOtherClaim], ∃ windowIds, t.msg = .claimMatured windowIds :=
    List.forall_mem_cons.2 ⟨⟨none, rfl⟩, List.forall_mem_singleton.2 ⟨some [0], rfl⟩⟩
  have horder := hall w [devToppedUp, devOtherClaim] [devOtherClaim, devToppedUp] "other"
    ⟨_, World.along_replay devWorld_fresh hw⟩ (.swap ..) hclaims (by decide)
  rw [hfirst, hsecond] at horder
  cases horder

end LstCore
