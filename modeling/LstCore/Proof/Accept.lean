import LstCore.Main.Overdraw
import LstCore.Main.RidingAlong
import LstCore.Proof.Refine

/-!
# What goes through

A call goes through when the arithmetic it needs stays in range and the chain takes its messages.

* `recordClaim_total`, `joinWindow_total`: a priced request joins the open window.
* `closeWindowIfOverdue_total`: the close that rides along gives no trouble.
* `Chain.overdue_runs`: the chain takes what it undelegates, as long as the set holds no more than
  the chain has.
* `Chain.exists_pool`: the pool can be priced.
-/

namespace LstCore

open Lib

variable {deps : Deps} {env : Env} {st st' : Storage} {w : UnbondWindow} {u : Addr}
  {messages : List CosmosMsg} {amount owed : Uint128}

/-! ## Joining -/

/-- What a request adds to a claim fits, since it fits the window. -/
theorem Booked.claim_fits {c : ClaimRecord} {id : ℕ} (hB : Booked st)
    (hw : st.windows.lookup id = some w) (hsb : w.sharesBurned.val + amount.val < 2 ^ 128)
    (hso : w.scrtOwed.val + owed.val < 2 ^ 128) (hc : st.claims.lookup (u, id) = some c) :
    c.sharesBurned.val + amount.val < 2 ^ 128 ∧ c.scrtOwed.val + owed.val < 2 ^ 128 := by
  have hburned := hB.claims.burned id w hw
  have howed := hB.claims.owed id w hw
  have hb := Queue.le_claimTotal (q := st.queue) (f := (·.sharesBurned.val)) hc
  have ho := Queue.le_claimTotal (q := st.queue) (f := (·.scrtOwed.val)) hc
  omega

/-- A claim that is recorded changes nothing of other accounts. -/
theorem recordClaim_total (st : Storage) {id : ℕ} (hfits : ∀ c, st.claims.lookup (u, id) = some c →
      c.sharesBurned.val + amount.val < 2 ^ 128 ∧ c.scrtOwed.val + owed.val < 2 ^ 128) :
    ∃ claims index, recordClaim u id amount owed st =
        .ok { st with claims := claims, claimIndex := index } ∧
      ∀ v, v ≠ u → (∀ i, claims.lookup (v, i) = st.claims.lookup (v, i)) ∧
        index v = st.claimIndex v := by
  have hother : ∀ (c : ClaimRecord) v, v ≠ u → ∀ i,
      (st.claims.insert (u, id) c).lookup (v, i) = st.claims.lookup (v, i) := fun c v hv i =>
    AList.lookup_insert_ne fun he => hv (congrArg Prod.fst he)
  unfold recordClaim
  cases hc : st.claims.lookup (u, id) with
  | none =>
    exact ⟨_, _, rfl, fun v hv => ⟨hother _ v hv, Function.update_of_ne hv _ _⟩⟩
  | some c =>
    obtain ⟨hs, ho⟩ := hfits c hc
    have hs' : add c.sharesBurned amount = .ok ⟨_, hs⟩ := add_eq_ok.2 rfl
    have ho' : add c.scrtOwed owed = .ok ⟨_, ho⟩ := add_eq_ok.2 rfl
    simp only [hs', ho', ok_bind]
    exact ⟨_, _, rfl, fun v hv => ⟨hother _ v hv, rfl⟩⟩

/-- **A priced request joins the open window**, as long as the window can count it. -/
theorem joinWindow_total {fromAddr : String} (hB : Booked st)
    (hw : st.windows.lookup st.openWindow = some w) (hu : deps.addrValidate fromAddr = .ok u)
    (hsb : w.sharesBurned.val + amount.val < 2 ^ 128) (hso : w.scrtOwed.val + owed.val < 2 ^ 128) :
    ∃ r, joinWindow deps fromAddr amount owed st = .ok r := by
  have hopen : w.state = .open := (hB.shape.isOpen _ _ hw).2 rfl
  have hassert : Windows.assertOpen w = .ok () := assertOpen_eq_ok.2 hopen
  have hburned : add w.sharesBurned amount = .ok ⟨_, hsb⟩ := add_eq_ok.2 rfl
  have howed : add w.scrtOwed owed = .ok ⟨_, hso⟩ := add_eq_ok.2 rfl
  have htotal : st.totals.scrtOwedOpen.val + owed.val < 2 ^ 128 := by rwa [hB.open_owed hw]
  have hopenOwed : add st.totals.scrtOwedOpen owed = .ok ⟨_, htotal⟩ := add_eq_ok.2 rfl
  unfold joinWindow
  simp only [loadWindow_eq_ok.2 hw, hassert, hburned, howed, hu, liftStd, ok_bind]
  -- the window put back does not change the claims
  obtain ⟨claims, index, hr, -⟩ := recordClaim_total
    (st.putWindow st.openWindow { w with sharesBurned := ⟨_, hsb⟩, scrtOwed := ⟨_, hso⟩ })
    fun c hc => hB.claim_fits hw hsb hso (u := u) hc
  rw [hr, ok_bind]
  simp only [Storage.putWindow, hopenOwed, ok_bind]
  exact ⟨_, rfl⟩

/-! ## Closing -/

/-- **The close that rides along gives no trouble**, as long as what it books stays in range. -/
theorem closeWindowIfOverdue_total (hweight : Weighted st.validators)
    (hb : total (·.bonded) st.validators < 2 ^ 128)
    (hw : st.windows.lookup st.openWindow = some w) (hopen : w.state = .open)
    (hrange : InRange st w) (env : Env) : ∃ r, closeWindowIfOverdue env st = .ok r := by
  by_cases hdue : w.closesAt ≤ env.time
  · by_cases hcap : w.scrtOwed.val ≤
        capacity st.config.params.maxUnbondEntriesPerValidator st.validators
    · obtain ⟨r, hr⟩ : ∃ r, closeOpenWindow env st = .ok r := (closeOpenWindow_iff hweight hb hw).2
        ⟨hcap, hrange.booked, hrange.id⟩
      rw [closeWindowIfOverdue_placed hweight hb hw hopen hdue hcap, hr]
      exact ⟨_, rfl⟩
    · exact ⟨_, (closeWindowIfOverdue_full hweight hb hw hopen hdue hcap).1⟩
  · exact ⟨_, (closeWindowIfOverdue_early hw hdue).1⟩

/-- What a closing undelegates: from different validators, not nothing, and no more than the set has
of each. -/
theorem Undelegated.held {vs : List ValidatorEntry} {ts : TotalsCache} {used : List String}
    (h : Undelegated st w vs ts used messages) (hnd : (st.validators.map (·.address)).Nodup) :
    ∃ l : List (String × Uint128), messages = l.map (undelegateMsg st.config.bondedDenom) ∧
      (l.map (·.1)).Nodup ∧
      ∀ p ∈ l, p.2 ≠ 0 ∧ ∃ v ∈ st.validators, v.address = p.1 ∧ p.2 ≤ v.bonded := by
  by_cases hz : w.scrtOwed = 0
  · cases h with
    | nothing => exact ⟨[], rfl, List.nodup_nil, by simp⟩
    | issued hne => exact absurd hz hne
  · obtain ⟨legs, hplan, hm⟩ := h.drawn hz
    obtain ⟨hdraw, -⟩ := Validators.planUndelegation_ok hplan
    refine ⟨_, hm, Chain.drawn_distinct hnd hdraw.distinct, fun p hp => ?_⟩
    obtain ⟨leg, hleg, hdrawn⟩ := List.mem_filterMap.1 hp
    obtain ⟨cs, -, -, rfl⟩ := (Validators.planUndelegation_eq_ok hz).1 hplan
    obtain ⟨v, hv, hle, -⟩ := hdraw.covered leg hleg
    have hat : drawnBy (st.validators.map (·.address)) leg = some (v.address, leg.amount) := by
      rw [drawnBy, List.getElem?_map, hv]
      rfl
    obtain rfl : p = (v.address, leg.amount) := Option.some.inj (hdrawn.symm.trans hat)
    exact ⟨(Validators.takeLegs_mem cs _ leg hleg).1, v, List.mem_of_getElem? hv, rfl, hle⟩

theorem overdue_held (h : closeWindowIfOverdue env st = .ok (st', messages))
    (hnd : (st.validators.map (·.address)).Nodup) :
    ∃ l : List (String × Uint128), messages = l.map (undelegateMsg st'.config.bondedDenom) ∧
      (l.map (·.1)).Nodup ∧
      ∀ p ∈ l, p.2 ≠ 0 ∧ ∃ v ∈ st.validators, v.address = p.1 ∧ p.2 ≤ v.bonded := by
  rw [(overdue_settings h).config]
  rcases closeWindowIfOverdue_ok h with ⟨-, rfl⟩ | ⟨w, closing, hw, hopen, hdue, hc, rfl⟩
  · exact ⟨[], rfl, List.nodup_nil, by simp⟩
  · obtain ⟨used, hund, -⟩ := closeOpenWindow_ok hw hopen hdue hc
    exact hund.held hnd

namespace Chain

variable {c c' : Chain} {view : Deps} {info : MessageInfo} {msg : ExecuteMsg}

/-- A call that the contract answers and whose messages the chain takes. -/
theorem enter_eq {resp : Response} (he : execute (c.deps view) c.env info msg c.store = .ok (st', resp))
    (hr : resp.messages.foldlM run { c with store := st' } = some c') :
    c.enter view info msg = some (c', resp.data) := by
  unfold enter
  rw [he]
  dsimp only
  rw [hr]
  rfl

/-- **The chain takes what the close undelegates**, as long as the set holds no more than the chain
has of each validator. -/
theorem overdue_runs (h : closeWindowIfOverdue env st = .ok (c.store, messages))
    (hnd : (st.validators.map (·.address)).Nodup)
    (hset : ∀ v ∈ st.validators, v.bonded ≤ (c.stakeOf v.address).amount)
    (hfits : c.balance.val + c.held < 2 ^ 128) : ∃ c', messages.foldlM run c = some c' := by
  obtain ⟨l, rfl, hl, hheld⟩ := overdue_held h hnd
  refine (undelegations_iff hl (fun p hp => (hheld p hp).1) hfits).2 fun p hp => ?_
  obtain ⟨-, v, hv, ha, hle⟩ := hheld p hp
  have := hset v hv
  rw [ha] at this
  exact Word.le_def.2 (Nat.le_trans (Word.le_def.1 hle) (Word.le_def.1 this))

/-- **The pool can be priced**, as long as what backs it and what is reserved can be counted. -/
theorem exists_pool (hne : c.store.validators ≠ []) (hM : c.store.totals.totalSupply = c.supply)
    (hb : c.backing < 2 ^ 128) (hr : c.store.reserved < 2 ^ 128) (view : Deps) (exclude : Uint128) :
    ∃ st' pool, pricingPool (c.deps view) c.env exclude c.store = .ok (st', pool) ∧
      pool.bonded.val + pool.pendingRewards.val + pool.liquid.val < 2 ^ 128 := by
  unfold backing at hb
  have hreads := readEntry_eq (c := c) view
  have hbonded : total (·.bonded) (c.store.validators.map c.read) < 2 ^ 128 := by omega
  have hpending : total (·.pendingRewards) (c.store.validators.map c.read) < 2 ^ 128 := by omega
  obtain ⟨tb, htb⟩ : ∃ tb : Uint128, tb.val = total (·.bonded) (c.store.validators.map c.read) :=
    ⟨⟨_, hbonded⟩, rfl⟩
  obtain ⟨pr, hpr⟩ : ∃ pr : Uint128,
      pr.val = total (·.pendingRewards) (c.store.validators.map c.read) := ⟨⟨_, hpending⟩, rfl⟩
  have hB : Backing (c.deps view) c.env c.store tb pr c.supply := by
    refine ⟨hne, fun v _ => ⟨(c.stakes.lookup v.address).map c.report, ?_⟩, ?_, ?_,
      mirrorSupply_eq hM view⟩
    · simp [deps, env]
    · rw [htb, ← hreads]
      rfl
    · rw [hpr, ← hreads]
      rfl
  have hbal : (c.deps view).queryBalance c.env.contract.address c.store.config.bondedDenom =
      .ok c.balance := by simp [deps, env]
  obtain ⟨st', hp⟩ := (pricingPool_backing ).2
    ⟨_, _, _, c.balance, ⟨_, hr⟩, hB, hbal, rfl, rfl⟩
  refine ⟨st', _, hp, ?_⟩
  simp only [Word.val_satSub]
  omega

end Chain

end LstCore
