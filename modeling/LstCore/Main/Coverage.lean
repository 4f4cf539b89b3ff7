import LstCore.Main.ClosingPrice
import LstCore.Main.Rebalancing
import LstCore.Proof.Changes
import LstCore.Proof.Posts

/-!
# The cache and the delegations

What a call books on an entry of the set is what its messages do to the delegation, except that
it books nothing for a delegation that has been slashed. So what is cached is never below what the
chain holds (`Reaches.covered`).

* `Carried`: the entries of a set after what messages do, entry by entry.
* `execute_carried`: a call, from what it reads of the set.
-/

namespace LstCore

open Lib

variable {deps : Deps} {env : Env} {info : MessageInfo} {st st' : Storage}
  {set set₁ set' : List ValidatorEntry} {messages l : List CosmosMsg} {resp : Response}

/-! ## What messages do to an entry -/

/-- What messages add to a delegation. -/
def intoBy (messages : List CosmosMsg) (validator : String) : ℕ :=
  (messages.map (·.into validator)).sum

/-- What they take from it. -/
def outBy (messages : List CosmosMsg) (validator : String) : ℕ :=
  (messages.map (·.outOf validator)).sum

theorem intoBy_append (u : String) : intoBy (messages ++ l) u = intoBy messages u + intoBy l u := by
  simp [intoBy]

theorem outBy_append (u : String) : outBy (messages ++ l) u = outBy messages u + outBy l u := by
  simp [outBy]

/-- Messages that touch no delegation. -/
def Stakeless (messages : List CosmosMsg) : Prop := ∀ m ∈ messages, ∀ u, m.into u = 0 ∧ m.outOf u = 0

theorem Stakeless.into_eq (h : Stakeless messages) (u : String) : intoBy messages u = 0 :=
  List.sum_eq_zero fun _ hx => by
    obtain ⟨m, hm, rfl⟩ := List.mem_map.1 hx
    exact (h m hm u).1

theorem Stakeless.out_eq (h : Stakeless messages) (u : String) : outBy messages u = 0 :=
  List.sum_eq_zero fun _ hx => by
    obtain ⟨m, hm, rfl⟩ := List.mem_map.1 hx
    exact (h m hm u).2

/-- The entries of a set once messages are booked: what they add is there, and nothing else, and
nothing is gone that they do not take. -/
def Carried (messages : List CosmosMsg) (set set' : List ValidatorEntry) : Prop :=
  ∀ v' ∈ set', ∃ v ∈ set, v.address = v'.address ∧
    v.bonded.val + intoBy messages v'.address ≤ v'.bonded.val + outBy messages v'.address ∧
    v'.bonded.val ≤ v.bonded.val + intoBy messages v'.address

theorem Carried.trans (h : Carried messages set set₁) (h' : Carried l set₁ set') :
    Carried (messages ++ l) set set' := by
  intro v' hv'
  obtain ⟨v₁, hv₁, ha₁, hlow₁, hup₁⟩ := h' v' hv'
  obtain ⟨v, hv, ha, hlow, hup⟩ := h v₁ hv₁
  rw [ha₁] at hlow hup
  rw [intoBy_append, outBy_append]
  exact ⟨v, hv, ha.trans ha₁, by omega, by omega⟩

/-- Stake and addresses as they were, and no delegation touched. -/
theorem Stakeless.carried (h : Stakeless messages)
    (hcol : set'.map (fun v => (v.address, v.bonded)) = set.map fun v => (v.address, v.bonded)) :
    Carried messages set set' := by
  intro v' hv'
  have hmem : (v'.address, v'.bonded) ∈ set.map fun v => (v.address, v.bonded) :=
    hcol ▸ List.mem_map_of_mem hv'
  obtain ⟨v, hv, he⟩ := List.mem_map.1 hmem
  rw [Prod.mk.injEq] at he
  rw [h.into_eq, h.out_eq, ← he.2]
  exact ⟨v, hv, he.1, Nat.le_refl _, Nat.le_refl _⟩

theorem stakeless_nil : Stakeless [] := fun _ hm => absurd hm List.not_mem_nil

theorem stakeless_token (token : ContractInfo) (m : TokenExecuteMsg) : Stakeless [.token token m] := by
  intro _ hm _
  rw [List.mem_singleton.1 hm]
  exact ⟨rfl, rfl⟩

theorem stakeless_withdrawals (contract : Addr) (denom : String) (page : List ValidatorEntry) :
    Stakeless (withdrawals deps contract denom page) := by
  intro _ hm _
  obtain ⟨_, -, rfl⟩ := List.mem_map.1 hm
  exact ⟨rfl, rfl⟩

/-! ## What is placed, drawn and moved -/

/-- **Stake that is placed** is delegated where it is booked. -/
theorem placeStake_carried {amount : Uint128} {validator : String} (denom : String)
    (h : placeStake amount set = .ok (set', validator)) (hnd : (set.map (·.address)).Nodup) :
    Carried [delegateMsg validator denom amount] set set' := by
  intro v' hv'
  obtain ⟨v, hv, ha, hb⟩ := exists_of_forall₂ (placeStake_forall₂ h hnd) hv'
  have hinto : intoBy [delegateMsg validator denom amount] v'.address =
      if v.address = validator then amount.val else 0 := by
    simp [intoBy, delegateMsg, CosmosMsg.into, ha, eq_comm]
  rw [hinto]
  exact ⟨v, hv, ha.symm, by omega, by omega⟩

/-- **The legs of a closing** take no more off an entry than they undelegate. -/
theorem issueLegs_carried {denom : String} : ∀ {legs : List Validators.UnbondLeg} {acc acc' : LegAcc},
    legs.foldlM (issueLeg denom) acc = .ok acc' →
    ∃ new, acc'.messages = acc.messages ++ new ∧ Carried new acc.set acc'.set := by
  intro legs
  induction legs with
  | nil =>
    intro acc acc' h
    simp only [List.foldlM_nil, pure_eq_ok] at h
    subst h
    exact ⟨[], (List.append_nil _).symm, stakeless_nil.carried rfl⟩
  | cons leg legs ih =>
    intro acc acc' h
    rw [List.foldlM_cons, bind_eq_ok] at h
    obtain ⟨mid, hmid, h⟩ := h
    obtain ⟨v, hv, rfl⟩ := issueLeg_eq_ok.1 hmid
    obtain ⟨new, hm, hrest⟩ := ih h
    refine ⟨[.undelegate v.address ⟨denom, leg.amount⟩] ++ new, by simp [hm], .trans ?_ hrest⟩
    intro v' hv'
    have hinto : intoBy [.undelegate v.address ⟨denom, leg.amount⟩] v'.address = 0 := rfl
    rw [hinto]
    rcases List.mem_or_eq_of_mem_set hv' with hv' | rfl
    · exact ⟨v', hv', rfl, Nat.le_add_right _ _, Nat.le_refl _⟩
    · have hout : outBy [.undelegate v.address ⟨denom, leg.amount⟩] v.address = leg.amount.val := by
        simp [outBy, CosmosMsg.outOf]
      refine ⟨v, List.mem_of_getElem? hv, rfl, ?_, ?_⟩
      · rw [hout, Word.val_satSub]
        omega
      · exact Nat.sub_le _ _

theorem closing_carried {closing : Closing} {w : UnbondWindow}
    (hw : st.windows.lookup st.openWindow = some w) (hopen : w.state = .open)
    (hdue : w.closesAt ≤ env.time) (h : closeOpenWindow env st = .ok (st', closing)) :
    Carried closing.messages st.validators st'.validators := by
  obtain ⟨used, hund, -⟩ := closeOpenWindow_ok hw hopen hdue h
  generalize st'.totals = ts at hund
  generalize st'.validators = vs at hund ⊢
  generalize closing.messages = messages at hund ⊢
  cases hund with
  | nothing => exact stakeless_nil.carried rfl
  | issued hz hplan hissue hou =>
    obtain ⟨new, hm, hc⟩ := issueLegs_carried hissue
    rw [hm]
    exact hc

theorem overdue_carried {closing : List CosmosMsg}
    (h : closeWindowIfOverdue env st = .ok (st', closing)) :
    Carried closing st.validators st'.validators := by
  rcases closeWindowIfOverdue_ok h with ⟨rfl, rfl⟩ | ⟨w, closing, hw, hopen, hdue, hc, rfl⟩
  · exact stakeless_nil.carried rfl
  · exact closing_carried hw hopen hdue hc

/-- **A plan** moves on the entries what its messages move. -/
theorem rebalance_carried {allowlist : List String} {denom : String} :
    ∀ {plan : List RedelegateStep} {acc acc' : RebalanceAcc}, (addresses acc.set).Nodup →
      plan.foldlM (rebalanceStep allowlist denom) acc = .ok acc' →
      ∃ new, acc'.messages = acc.messages ++ new ∧ Carried new acc.set acc'.set := by
  intro plan
  induction plan with
  | nil =>
    intro acc acc' _ h
    simp only [List.foldlM_nil, pure_eq_ok] at h
    subst h
    exact ⟨[], (List.append_nil _).symm, stakeless_nil.carried rfl⟩
  | cons step plan ih =>
    intro acc acc' hnd h
    rw [List.foldlM_cons, bind_eq_ok] at h
    obtain ⟨mid, hmid, h⟩ := h
    obtain ⟨hslots, -, -, hmsg⟩ := rebalanceStep_ok hmid
    obtain ⟨new, hm, hrest⟩ := ih (by rwa [addresses, hslots]) h
    refine ⟨[.redelegate step.srcValidator step.dstValidator ⟨denom, step.amount⟩] ++ new,
      by rw [hm, hmsg, List.append_assoc], .trans ?_ hrest⟩
    intro v' hv'
    -- the entry in the same place before the step
    obtain ⟨j, hj⟩ := List.getElem?_of_mem hv'
    obtain ⟨hlt, -⟩ := List.getElem?_eq_some_iff.1 hj
    rw [length_eq_of_slots hslots] at hlt
    obtain ⟨u, hu, ha, hb⟩ := rebalanceStep_net hnd hmid (List.getElem?_eq_getElem hlt)
    rw [hj, Option.some.injEq] at hu
    subst hu
    have hinto : intoBy [.redelegate step.srcValidator step.dstValidator ⟨denom, step.amount⟩]
        v'.address = step.sends v'.address := by
      simp [intoBy, CosmosMsg.into, RedelegateStep.sends]
    have hout : outBy [.redelegate step.srcValidator step.dstValidator ⟨denom, step.amount⟩]
        v'.address = step.takes v'.address := by
      simp [outBy, CosmosMsg.outOf, RedelegateStep.takes]
    rw [← ha] at hb
    rw [hinto, hout]
    exact ⟨_, List.getElem_mem hlt, ha.symm, by omega, by omega⟩

/-! ## A call -/

/-- **Only an assignment of weights changes the posts.** -/
theorem execute_posts {msg : ExecuteMsg} (hB : Booked st) (hw : ∀ ws, msg ≠ .manager (.setWeights ws))
    (h : execute deps env info msg st = .ok (st', resp)) : posts st'.validators = posts st.validators := by
  cases msg with
  | sync limit =>
    obtain ⟨s, rfl, -⟩ := executeSync_ok h
    exact s.map_next fixed_posts
  | compound limit =>
    obtain ⟨c, rfl, -⟩ := executeCompound_ok h
    exact c.map_next fixed_posts
  | manager m =>
    rcases executeManager_unmoved h with ⟨ws, rfl, -⟩ | hk
    · exact absurd rfl (hw ws)
    · exact hk.column fixed_posts
  | _ => exact (execute_unmoved hB rfl h).column fixed_posts

/-- Who is removed by an assignment has no stake cached. -/
theorem reweigh_removed {ws : List ValidatorInit} {v : ValidatorEntry}
    (h : (Validators.reweigh ws v).status = .removed) : v.bonded = 0 := by
  unfold Validators.reweigh at h
  split at h
  · cases h
  · by_contra hne
    rw [if_neg hne] at h
    cases h

namespace Chain

variable {c c' c₁ : Chain} {view : Deps} {store : Storage}

/-- The cache is nowhere below what the chain holds. -/
def Covered (c : Chain) : Prop :=
  ∀ v ∈ c.store.validators, (c.stakeOf v.address).amount ≤ v.bonded

/-- The entries are between what the chain holds and what is cached. -/
def ReadFrom (c : Chain) (set : List ValidatorEntry) : Prop :=
  ∀ v ∈ set, ∃ u ∈ c.store.validators, u.address = v.address ∧
    (c.stakeOf v.address).amount ≤ v.bonded ∧ v.bonded ≤ u.bonded

theorem Covered.readFrom (h : Covered c) : ReadFrom c c.store.validators :=
  fun v hv => ⟨v, hv, rfl, h v hv, Nat.le_refl _⟩

theorem Covered.refreshed (h : Covered c) : ReadFrom c (c.store.validators.map c.read) := by
  intro _ hr
  obtain ⟨v, hv, rfl⟩ := List.mem_map.1 hr
  exact ⟨v, hv, rfl, Nat.le_refl _, h v hv⟩

/-- A page that is read again. -/
theorem Covered.page (f : ValidatorEntry → ValidatorEntry) (cursor stop : ℕ) (h : Covered c)
    (hf : ∀ v, (f v).address = v.address)
    (hb : ∀ v ∈ c.store.validators, (c.stakeOf v.address).amount ≤ (f v).bonded ∧ (f v).bonded ≤ v.bonded) :
    ReadFrom c (withPage cursor stop c.store.validators
      ((pageOf cursor stop c.store.validators).map f)) := by
  intro v hv
  unfold withPage at hv
  split at hv
  · rw [List.append_assoc, List.mem_append, List.mem_append] at hv
    rcases hv with hv | hv | hv
    · exact h.readFrom v (List.mem_of_mem_take hv)
    · obtain ⟨u, hu, rfl⟩ := List.mem_map.1 hv
      have hu : u ∈ c.store.validators := List.mem_of_mem_take (List.mem_of_mem_drop hu)
      rw [hf]
      exact ⟨u, hu, rfl, hb u hu⟩
    · exact h.readFrom v (List.mem_of_mem_drop hv)
  · exact h.readFrom v hv

/-- A compound reads the delegations that are there. -/
theorem Covered.reap (h : Covered c) : ∀ v ∈ c.store.validators,
    (c.stakeOf v.address).amount ≤ (c.reap v).bonded ∧ (c.reap v).bonded ≤ v.bonded := by
  intro v hv
  have hcov := h v hv
  unfold stakeOf at hcov ⊢
  unfold Chain.reap
  cases hs : c.stakes.lookup v.address with
  | none => exact ⟨Nat.zero_le _, Nat.le_refl _⟩
  | some s =>
    rw [hs] at hcov
    exact ⟨Nat.le_refl _, hcov⟩

/-- Marking moves no stake. -/
theorem marked_bonded {limit : ℕ} {balance : Uint128} {st st' : Storage}
    {rets : List (ℕ × Uint128)} {now : ℕ} (hM : Marking now limit balance st st' rets) :
    st'.validators.map (fun v => (v.address, v.bonded)) =
      st.validators.map fun v => (v.address, v.bonded) := by
  rw [hM.frame]
  exact map_release (fun _ _ => rfl) _ _

theorem Covered.deposit_carried (hcov : Covered c)
    (hnd : (c.store.validators.map (·.address)).Nodup)
    (h : executeDeposit (c.deps view) c.env info c.store = .ok (store, resp)) :
    ∃ base, ReadFrom c base ∧ Carried resp.messages base store.validators := by
  obtain ⟨st₁, _, _, _, closing, ha, hc, hm⟩ := executeDeposit_ok h
  obtain ⟨d, rfl, rfl⟩ := acceptDeposit_ok ha
  refine ⟨_, hcov.refreshed, ?_⟩
  rw [hm, ← refreshed_set d.refreshed]
  have hplaced := placeStake_carried d.priced.config.bondedDenom d.placed (by
    rw [refreshed_set d.refreshed, List.map_map]
    exact hnd)
  exact (((stakeless_token _ _).carried rfl).trans hplaced).trans (overdue_carried hc)

theorem Covered.receive_carried (hcov : Covered c) {fromAddr : String} {amount : Uint128}
    {hook : Option Binary}
    (h : executeReceive (c.deps view) c.env info fromAddr amount hook c.store = .ok (store, resp)) :
    ∃ base, ReadFrom c base ∧ Carried resp.messages base store.validators := by
  obtain ⟨st₁, _, _, _, closing, ha, hc, hm⟩ := executeReceive_ok h
  obtain ⟨st₂, -, -, -, -, hprice, hj⟩ := requestWithdrawal_ok ha
  obtain ⟨pool, hpool, -⟩ := priceWithdrawal_eq_ok.1 hprice
  obtain ⟨u, oo, -, -, -, hst⟩ := joinWindow_ok hj
  refine ⟨_, hcov.refreshed, ?_⟩
  rw [hm, ← refreshed_set (pricingPool_eq_ok.1 hpool).1]
  have hsame : st₁.validators = st₂.validators := by rw [hst]
  exact ((stakeless_token _ _).carried rfl).trans (hsame ▸ overdue_carried hc)

theorem Covered.compound_carried (hcov : Covered c)
    (hnd : (c.store.validators.map (·.address)).Nodup) {limit : Option ℕ}
    (h : executeCompound (c.deps view) c.env limit c.store = .ok (store, resp)) :
    ∃ base, ReadFrom c base ∧ Carried resp.messages base store.validators := by
  obtain ⟨k, rfl, hm, -⟩ := executeCompound_ok h
  have hset : harvestedSet (c.deps view) c.env c.store k.stop = withPage c.store.syncCursor k.stop
      c.store.validators ((pageOf c.store.syncCursor k.stop c.store.validators).map c.reap) := by
    rw [← harvestEntry_eq view]
    rfl
  refine ⟨_, hset ▸ hcov.page c.reap c.store.syncCursor k.stop (fun _ => rfl) hcov.reap, ?_⟩
  rw [hm]
  refine ((stakeless_withdrawals _ _ _).carried rfl).trans ?_
  rcases restake_ok k.restake_eq with ⟨-, hs, hnil, -⟩ | ⟨-, _, validator, fee, -, hplace, -, hf, hmsg⟩
  · rw [hnil]
    exact stakeless_nil.carried (by rw [← hs]; rfl)
  · -- what was harvested is placed, and the fee takes no stake
    rw [hmsg]
    have hplaced := placeStake_carried c.store.config.bondedDenom hplace (by
      rw [harvestedSet, map_withPage (by rw [List.map_map]; rfl)]
      exact hnd)
    refine hplaced.trans (Stakeless.carried ?_ rfl)
    rcases feeMessages_ok hf with rfl | ⟨_, _, rfl⟩
    · exact stakeless_nil
    · exact stakeless_token _ _

/-- **A call books what its messages do** on the set as it reads it. -/
theorem execute_carried {msg : ExecuteMsg} (hB : Booked c.store) (hcov : Covered c)
    (hnd : (c.store.validators.map (·.address)).Nodup) (hw : ∀ ws, msg ≠ .manager (.setWeights ws))
    (h : execute (c.deps view) c.env info msg c.store = .ok (store, resp)) :
    ∃ base, ReadFrom c base ∧ Carried resp.messages base store.validators := by
  cases msg with
  | deposit => exact hcov.deposit_carried hnd h
  | receive sender fromAddr amount hook => exact hcov.receive_carried h
  | compound limit => exact hcov.compound_carried hnd h
  | claimMatured windowIds =>
    obtain ⟨_, _, st₁, _, _, -, hM, -, hP, -, hm⟩ := executeClaimMatured_ok hB h
    refine ⟨_, hcov.readFrom, Stakeless.carried ?_ ?_⟩
    · rw [hm]
      intro m hm u
      rw [List.mem_singleton.1 hm]
      exact ⟨rfl, rfl⟩
    · rw [hP.frame]
      show st₁.validators.map _ = _
      exact marked_bonded hM
  | advanceWindow =>
    obtain ⟨w, closing, hw, hopen, hdue, hc, hm⟩ := executeAdvanceWindow_ok h
    rw [hm]
    exact ⟨_, hcov.readFrom, closing_carried hw hopen hdue hc⟩
  | collectMatured limit =>
    obtain ⟨ids, hmat, hm⟩ := executeCollectMatured_ok h
    obtain ⟨_, _, -, hM, -⟩ := matureDueWindows_ok hB hmat
    rw [hm]
    exact ⟨_, hcov.readFrom, stakeless_nil.carried (marked_bonded hM)⟩
  | sync limit =>
    obtain ⟨s, rfl, hm, -⟩ := executeSync_ok h
    rw [hm]
    refine ⟨_, hcov.page c.read c.store.syncCursor s.stop (fun _ => rfl)
      fun v hv => ⟨Nat.le_refl _, hcov v hv⟩, stakeless_nil.carried ?_⟩
    show (syncedSet (c.deps view) c.env c.store s.stop).map _ = _
    rw [syncedSet, show readEntry (c.deps view) c.env.contract.address c.store.config.bondedDenom =
      c.read from readEntry_eq view]
  | manager m =>
    rcases executeManager_ok h with ⟨ws, rfl, -⟩ | ⟨_, -, -, rfl, hm⟩ | ⟨plan, acc, -, hacc, rfl, hm⟩
    · exact absurd rfl (hw ws)
    · rw [hm]
      exact ⟨_, hcov.readFrom, stakeless_nil.carried rfl⟩
    · obtain ⟨new, hnew, hc⟩ := rebalance_carried (addresses_eq _ ▸ hnd) hacc
      rw [hm, hnew]
      exact ⟨_, hcov.readFrom, hc⟩
  | setPaused paused =>
    obtain ⟨rfl, hm⟩ := executeSetPaused_ok h
    rw [hm]
    exact ⟨_, hcov.readFrom, stakeless_nil.carried rfl⟩
  | bootstrap addr hash =>
    obtain ⟨s, rfl, hm⟩ := executeBootstrap_ok h
    rw [hm]
    refine ⟨_, hcov.readFrom, ?_⟩
    exact ((stakeless_token _ _).carried rfl).trans
      (((stakeless_token _ _).carried rfl).trans (placeStake_carried _ s.placed hnd))

/-- **An entry after a call** covers its delegation, and has grown by no more than the call's
messages add. -/
theorem ReadFrom.entry {base : List ValidatorEntry} {v' : ValidatorEntry} (hread : ReadFrom c base)
    (hcar : Carried messages base store.validators) (hv : v' ∈ store.validators)
    (hr : messages.foldlM run { c with store := store } = some c') :
    ∃ u ∈ c.store.validators, u.address = v'.address ∧ (c'.stakeOf v'.address).amount ≤ v'.bonded ∧
      v'.bonded.val ≤ u.bonded.val + intoBy messages v'.address := by
  obtain ⟨v, hv, ha, hlow, hup⟩ := hcar v' hv
  obtain ⟨u, hu, hua, hle, hle'⟩ := hread v hv
  have hamount : (c'.stakeOf v'.address).amount.val + outBy messages v'.address =
    (c.stakeOf v'.address).amount.val + intoBy messages v'.address := (runs_ok hr).amount v'.address
  rw [ha] at hle
  rw [Word.le_def] at hle hle'
  exact ⟨u, hu, hua.trans ha, Word.le_def.2 (by omega), by omega⟩

/-- **An entry after an assignment**: one of those before, or one that has joined with nothing. -/
theorem mem_applyWeights {ws : List ValidatorInit} {v' : ValidatorEntry}
    (hnd : (ws.map (·.address)).Nodup) (hv : v' ∈ Validators.applyWeights set ws) :
    (∃ u ∈ set, v' = Validators.reweigh ws u) ∨
      v'.status = .active ∧ v'.bonded = 0 ∧ v'.address ∉ set.map (·.address) := by
  rw [applyWeights_eq set hnd, List.mem_append, List.mem_map, List.mem_map] at hv
  rcases hv with ⟨u, hu, rfl⟩ | ⟨w, hw, rfl⟩
  · exact .inl ⟨u, hu, rfl⟩
  · exact .inr ⟨rfl, rfl, of_decide_eq_true (List.mem_filter.1 hw).2⟩

/-- Somebody who is not in the set has no delegation. -/
theorem Housed.stakeOf_eq {a : String} (h : Housed c) (ha : a ∉ c.store.validators.map (·.address)) :
    c.stakeOf a = ⟨0, 0⟩ := by
  have hnone : c.stakes.lookup a = none := AList.lookup_eq_none.2 fun hm => ha (h a hm)
  rw [stakeOf, hnone]
  rfl

/-- Aside from calls, delegations lose stake at most, and the set is as it was. -/
theorem Aside.stake_le {e : ChainEvent} (h : Aside c e c') :
    (∀ v, (c'.stakeOf v).amount ≤ (c.stakeOf v).amount) ∧
      c'.store.validators = c.store.validators := by
  cases h with
  | transfer hne hm =>
    obtain ⟨hT, -⟩ := move_ok hm
    exact ⟨fun v => (stakeOf_congr hT.stakes).1 ▸ Nat.le_refl _, by rw [hT.store]⟩
  | migrate hm =>
    obtain ⟨rfl, -⟩ := migrate_ok hm
    exact ⟨fun _ => Nat.le_refl _, rfl⟩
  | inflow | time => exact ⟨fun _ => Nat.le_refl _, rfl⟩
  | @accrue v amount r s hs hr =>
    have hput : Put c v { s with rewards := r }
      { c with stakes := c.stakes.insert v { s with rewards := r } } := put_insert rfl
    refine ⟨fun u => ?_, rfl⟩
    by_cases hu : u = v
    · rw [hu, hput.at_v, Chain.stakeOf_eq hs]
      exact Nat.le_refl _
    · rw [hput.off_v u hu]
      exact Nat.le_refl _
  | @slash v amount a s hs ha =>
    have hput : Put c v { s with amount := a }
      { c with stakes := c.stakes.insert v { s with amount := a } } := put_insert rfl
    refine ⟨fun u => ?_, rfl⟩
    by_cases hu : u = v
    · rw [hu, hput.at_v, Chain.stakeOf_eq hs, Word.le_def]
      dsimp only
      omega
    · rw [hput.off_v u hu]
      exact Nat.le_refl _

theorem Entered.covered {e : ChainEvent} {msg : ExecuteMsg} (hen : Entered c e c₁ view info msg)
    (h : Covered c) : Covered c₁ := by
  intro v hv
  rw [hen.store_eq] at hv
  rw [(stakeOf_congr hen.stakes_eq).1]
  exact h v hv

/-- The messages of the contract in an event. -/
def emitted (c : Chain) : ChainEvent → List CosmosMsg
  | .call view info msg =>
    match c.fund info with
    | none => []
    | some c =>
      match execute (c.deps view) c.env info msg c.store with
      | .ok (_, resp) => resp.messages
      | .error _ => []
  | .send view sender fromAddr amount hook =>
    match c.store.config.token, c.move fromAddr c.self.address amount with
    | some token, some c =>
      match execute (c.deps view) c.env ⟨token.address, []⟩ (.receive sender fromAddr amount hook)
        c.store with
      | .ok (_, resp) => resp.messages
      | .error _ => []
    | _, _ => []
  | _ => []

theorem Entered.emitted_eq {e : ChainEvent} {msg : ExecuteMsg} (hen : Entered c e c₁ view info msg)
    (h : execute (c₁.deps view) c₁.env info msg c₁.store = .ok (store, resp)) :
    c.emitted e = resp.messages := by
  cases hen with
  | call hs hb =>
    have hfund : c.fund info = some _ := fund_eq_some hb
    simp only [emitted, hfund, h]
  | send hne ht hm => simp only [emitted, ht, hm, h]

/-- **An entry after an event** covers its delegation. It has the status of the entry before it, and
has grown by no more than the event's messages add; or it is as an assignment has left it. -/
theorem Covered.entry {e : ChainEvent} {answer : Option ExecuteAnswer} {v' : ValidatorEntry}
    (h : Covered c) (hR : c.Reaches) (hn : Next c (e, answer) c') (hv : v' ∈ c'.store.validators) :
    (c'.stakeOf v'.address).amount ≤ v'.bonded ∧
      ((∃ u ∈ c.store.validators, u.address = v'.address ∧ u.status = v'.status ∧
          v'.bonded.val ≤ u.bonded.val + intoBy (c.emitted e) v'.address) ∨
        (v'.status = .removed → v'.bonded = 0)) := by
  rcases step_ok hn with ⟨c₁, view, info, msg, store, resp, hen, he, hr, -⟩ | ⟨-, ha⟩
  · have hB : Booked c₁.store := hen.store_eq ▸ hR.reachable.booked
    have haddr : (addresses c₁.store.validators).Nodup := hen.store_eq ▸ hR.reachable.slotted.distinct
    have hnd : (c₁.store.validators.map (·.address)).Nodup := addresses_eq _ ▸ haddr
    rw [(runs_ok hr).store] at hv
    rw [hen.emitted_eq he, ← hen.store_eq]
    by_cases hw : ∀ ws, msg ≠ .manager (.setWeights ws)
    · obtain ⟨base, hread, hcar⟩ := execute_carried hB (hen.covered h) hnd hw he
      obtain ⟨u, hu, hua, hcov, hup⟩ := hread.entry hcar hv hr
      -- its status is that of the entry with its address
      obtain ⟨u', hu', hua', -, hst⟩ := exists_post (execute_posts hB hw he) hv
      obtain rfl := entry_unique haddr hu hu' (hua.trans hua'.symm)
      exact ⟨hcov, .inl ⟨u, hu, hua, hst, hup⟩⟩
    · -- an assignment moves no stake, and who joins has none
      rw [not_forall] at hw
      obtain ⟨ws, hw⟩ := hw
      rw [not_not] at hw
      subst hw
      have hmgr : executeManager info (.setWeights ws) c₁.store = .ok (store, resp) := he
      obtain ⟨_, hws, hval, rfl, hm⟩ | ⟨_, hws, -⟩ | ⟨_, _, hws, -⟩ := executeManager_ok hmgr
      · cases hws
        rw [hm, List.foldlM_nil, Option.pure_def, Option.some.injEq] at hr
        subst hr
        show (c₁.stakeOf v'.address).amount ≤ v'.bonded ∧ _
        rcases mem_applyWeights (validateSet_nodup (validateManagedWeights_mem hval).1).2 hv with
          ⟨u, hu, rfl⟩ | ⟨hactive, hz, hout⟩
        · obtain ⟨hslot, hb, -⟩ := reweigh_slot ws u
          rw [show (Validators.reweigh ws u).address = u.address from congrArg Prod.fst hslot, hb]
          exact ⟨hen.covered h u hu, .inr reweigh_removed⟩
        · have hhoused : Housed c₁ := fun a ha => hen.store_eq ▸ hR.housed a (hen.stakes_eq ▸ ha)
          rw [hhoused.stakeOf_eq hout, hz]
          exact ⟨Nat.le_refl _, .inr fun _ => rfl⟩
      · cases hws
      · cases hws
  · obtain ⟨hle, hset⟩ := ha.stake_le
    rw [hset] at hv
    exact ⟨Nat.le_trans (hle v'.address) (h v' hv), .inl ⟨v', hv, rfl, rfl, Nat.le_add_right _ _⟩⟩

/-- **The cache is never below the chain.** In every chain reached from a fresh contract, each
entry of the set has cached at least what is delegated to it. -/
theorem Reaches.covered (h : c.Reaches) : Covered c := by
  refine h.inv (fun c hf v _ => ?_) fun _ _ _ hR hcov hn _ hv => (hcov.entry hR hn hv).1
  have hz : c.stakeOf v.address = ⟨0, 0⟩ := by
    rw [stakeOf, hf.1]
    rfl
  rw [hz]
  exact Nat.zero_le _

end Chain

end LstCore
