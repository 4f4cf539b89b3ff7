import LstCore.Main.Coverage
import LstCore.Proof.Blocks
import LstCore.Proof.Passage
import LstCore.Spec.Checks

/-!
# Validator drift

The keeper takes a validator whose stake has shrunk since the last pass, with nothing of it
unbonding, for slashed or jailed. Where passes are less than an unbonding period apart an undelegation
in between is still unbonding, so that such a finding has one of three causes: the cache was above the
delegation already, a slash, or a rebalance away from the validator (`drift_explained`).
-/

namespace LstCore

open Lib

variable {deps : Deps} {env : Env} {info : MessageInfo} {msg : ExecuteMsg} {resp : Response}
  {st st' : Storage} {v : String} {due : ℕ}

/-! ## What is unbonding -/

/-- Something of a validator's stake is in flight, and due at some time at the earliest. -/
def InFlight (v : String) (due : ℕ) (st : Storage) : Prop :=
  ∃ id w, st.windows.lookup id = some w ∧ w.state = .unbonding ∧ v ∈ w.validatorsUsed ∧
    due ≤ w.maturesAt

/-- What a close undelegates is in flight. -/
theorem closing_flies {closing : Closing} {w : UnbondWindow} (hB : Booked st)
    (hw : st.windows.lookup st.openWindow = some w) (hopen : w.state = .open)
    (hdue : w.closesAt ≤ env.time) (h : closeOpenWindow env st = .ok (st', closing))
    (hv : v ∈ undelegatedFrom closing.messages) :
    InFlight v (satAdd64 env.time st.config.params.unbondingPeriodSecs) st' := by
  obtain ⟨used, hund, -, hstep⟩ := closeOpenWindow_ok hw hopen hdue h
  have hused : undelegatedFrom closing.messages = used := hund.names (hB.used_nil hw hopen)
  rw [hused] at hv
  have hid : st.openWindow ≠ st.queue.nextWindowId := by
    have hnext : st.queue.nextWindowId = st.openWindow + 1 := hB.shape.next
    omega
  generalize hq : st'.queue = q at hstep
  cases hstep with
  | closeEmpty hw' _ _ hz =>
    -- nothing was owed, so nothing is undelegated
    obtain rfl := Option.some.inj (hw'.symm.trans hw)
    rw [hund.used_eq hz, hB.used_nil hw hopen] at hv
    cases hv
  | close hw' hopen' hdue' hz =>
    rename_i w'
    obtain rfl : w' = w := Option.some.inj (hw'.symm.trans hw)
    refine ⟨st.openWindow, w'.sent (satAdd64 env.time st.config.params.unbondingPeriodSecs) used, ?_,
      rfl, hv, Nat.le_refl _⟩
    have hlook := congrArg (fun q => q.windows.lookup st.openWindow) hq
    refine hlook.trans ?_
    rw [Queue.lookup_advance, if_neg hid]
    exact if_pos rfl

theorem overdue_flies {messages : List CosmosMsg} (hB : Booked st)
    (h : closeWindowIfOverdue env st = .ok (st', messages)) (hv : v ∈ undelegatedFrom messages) :
    InFlight v (satAdd64 env.time st.config.params.unbondingPeriodSecs) st' := by
  rcases closeWindowIfOverdue_ok h with ⟨-, rfl⟩ | ⟨w, closing, hw, hopen, hdue, hc, rfl⟩
  · cases hv
  · exact closing_flies hB hw hopen hdue hc hv

/-- **What a call undelegates is in flight**, for a whole unbonding period. -/
theorem execute_flies (hB : Booked st) (h : execute deps env info msg st = .ok (st', resp))
    (hv : v ∈ undelegatedFrom resp.messages) :
    InFlight v (satAdd64 env.time st.config.params.unbondingPeriodSecs) st' := by
  have hnone : undelegations resp.messages = [] → False := by
    intro hnil
    rw [undelegatedFrom, hnil] at hv
    cases hv
  cases msg with
  | deposit =>
    obtain ⟨st₁, deposit, shares, messages, closing, ha, hc, hm⟩ := executeDeposit_ok h
    obtain ⟨d, rfl, rfl⟩ := acceptDeposit_ok ha
    have hu : undelegations d.messages = [] := rfl
    rw [hm, undelegatedFrom, undelegations_append, hu, List.nil_append] at hv
    rw [← d.still.period]
    exact overdue_flies (hB.still d.still) hc hv
  | receive sender fromAddr amount hook =>
    obtain ⟨st₁, w, owed, token, closing, hreq, hc, hm⟩ := executeReceive_ok h
    obtain ⟨st₂, hs, -, hj⟩ := requestWithdrawal_join hreq
    obtain ⟨_, _, -, -, -, hst⟩ := joinWindow_ok hj
    have hperiod : st₁.config.params.unbondingPeriodSecs = st.config.params.unbondingPeriodSecs := by
      rw [hst]
      exact hs.period
    rw [hm] at hv
    rw [← hperiod]
    exact overdue_flies (hB.closesFrom (.receive hreq)) hc hv
  | advanceWindow =>
    obtain ⟨w, closing, hw, hopen, hdue, hc, hm⟩ := executeAdvanceWindow_ok h
    rw [hm] at hv
    exact closing_flies hB hw hopen hdue hc hv
  | claimMatured ids =>
    obtain ⟨_, _, _, _, _, -, -, -, -, -, hm⟩ := executeClaimMatured_ok hB h
    exact (hnone (by rw [hm]; rfl)).elim
  | collectMatured limit =>
    obtain ⟨ids, -, hm⟩ := executeCollectMatured_ok h
    exact (hnone (by rw [hm]; rfl)).elim
  | compound limit =>
    refine (hnone (undelegations_eq_nil fun m hm v c => ?_)).elim
    rcases executeCompound_messages h m hm with ⟨_, rfl⟩ | ⟨_, _, rfl⟩ | ⟨_, _, rfl⟩ <;> simp
  | sync limit =>
    obtain ⟨s, -, hm, -⟩ := executeSync_ok h
    exact (hnone (by rw [hm]; rfl)).elim
  | manager m =>
    refine (hnone (undelegations_eq_nil fun m hm v c => ?_)).elim
    obtain ⟨_, _, _, rfl⟩ := executeManager_messages h m hm
    simp
  | setPaused paused =>
    obtain ⟨-, hm⟩ := executeSetPaused_ok h
    exact (hnone (by rw [hm]; rfl)).elim
  | bootstrap tokenAddress tokenCodeHash =>
    obtain ⟨s, -, hm⟩ := executeBootstrap_ok h
    exact (hnone (by rw [hm]; rfl)).elim

/-- **It stays in flight** until it is due. -/
theorem InFlight.execute {balance : Uint128} (hf : InFlight v due st) (hB : Booked st) (hS : Slotted st)
    (hb : deps.queryBalance env.contract.address st.config.bondedDenom = .ok balance)
    (h : execute deps env info msg st = .ok (st', resp)) (hnow : env.time < due) :
    InFlight v due st' := by
  obtain ⟨id, w, hw, hs, hv, hdue⟩ := hf
  have hB' : Booked st' := (step_refines (e := (.execute deps env info msg, resp)) hB h).1
  obtain ⟨rets, htaken, hpass, -⟩ := (execute_effect hB hS hb h).passage hB hB'
  have hp := hpass id
  rw [hw] at hp
  generalize hw' : st'.windows.lookup id = o at hp
  cases hp with
  | same => exact ⟨id, w, hw', hs, hv, hdue⟩
  | returned hr =>
    -- a window that is marked is due
    have hmem : id ∈ rets.map (·.1) := List.mem_map_of_mem hr
    rw [htaken.ids] at hmem
    unfold marksOf at hmem
    split at hmem
    · cases hmem
    · have hd := (List.mem_filter.1 (List.mem_of_mem_take hmem)).2
      obtain ⟨w₁, hw₁, -, hle⟩ := dueIn_iff.1 hd
      obtain rfl : w₁ = w := Option.some.inj (hw₁.symm.trans hw)
      omega
  | joined _ h => rw [hs] at h; cases h
  | emptied _ h => rw [hs] at h; cases h
  | sent _ _ h => rw [hs] at h; cases h
  | paid _ h => rw [hs] at h; cases h

/-- A validator with something in flight has an entry. -/
theorem InFlight.entries (hf : InFlight v due st) (hS : Slotted st) {x : ValidatorEntry}
    (hx : x ∈ st.validators) (ha : x.address = v) : x.activeUnbondEntries ≠ 0 := by
  obtain ⟨id, w, hw, hs, hv, -⟩ := hf
  have hcount : x.activeUnbondEntries = st.queue.uses x.address :=
    hS.counted (slot x) (List.mem_map_of_mem hx)
  have hle : Queue.holds v w ≤ st.queue.uses v :=
    Keymap.le_total (f := fun _ w => Queue.holds v w) (m := st.queue.windows) hw
  have hone : Queue.holds v w = 1 := if_pos ⟨hs, hv⟩
  rw [ha] at hcount
  omega

/-! ## What happens to a validator -/

namespace Chain

variable {c c₁ c' : Chain} {e : ChainEvent} {answer : Option ExecuteAnswer}

/-- A slash of a validator, or a rebalance away from it. -/
def TakesFrom (v : String) (c : Chain) (e : ChainEvent × Option ExecuteAnswer) : Prop :=
  (∃ amount, amount ≠ 0 ∧ e.1 = .slash v amount) ∨ ∃ dst coin, .redelegate v dst coin ∈ c.emitted e.1

/-- **What else makes a delegation shrink** is an undelegation. -/
theorem stake_kept (hn : Next c (e, answer) c') (hk : ¬ TakesFrom v c (e, answer)) :
    (c.stakeOf v).amount ≤ (c'.stakeOf v).amount ∨ v ∈ undelegatedFrom (c.emitted e) := by
  rcases step_ok hn with ⟨c₁, view, info, msg, store, resp, hen, he, hr, -⟩ | ⟨-, ha⟩
  · have hemit := hen.emitted_eq he
    refine or_iff_not_imp_right.2 fun hv => ?_
    rw [hemit] at hv
    -- no message takes from the validator
    have hout : (resp.messages.map (·.outOf v)).sum = 0 := by
      refine List.sum_eq_zero fun n hmem => ?_
      obtain ⟨m, hm, rfl⟩ := List.mem_map.1 hmem
      cases m with
      | undelegate u coin =>
        have hne : u ≠ v := by
          rintro rfl
          refine hv (List.mem_map.2 ⟨(u, coin.amount), ?_, rfl⟩)
          exact List.mem_filterMap.2 ⟨_, hm, rfl⟩
        exact if_neg hne
      | redelegate src dst coin =>
        have hne : src ≠ v := by
          rintro rfl
          exact hk (.inr ⟨dst, coin, by rwa [hemit]⟩)
        exact if_neg hne
      | _ => rfl
    have hamount := (runs_ok hr).amount v
    have hstake : ({ c₁ with store := store } : Chain).stakeOf v = c.stakeOf v :=
      congrFun (stakeOf_congr hen.stakes_eq).1 v
    rw [hstake] at hamount
    exact Word.le_def.2 (by omega)
  · refine .inl ?_
    cases ha with
    | transfer hne hm =>
      rw [(stakeOf_congr (move_ok hm).1.stakes).1]
      exact Nat.le_refl _
    | @accrue u amount r s hs hr =>
      have hput : Put c u { s with rewards := r }
          { c with stakes := c.stakes.insert u { s with rewards := r } } := put_insert rfl
      by_cases hu : v = u
      · subst hu
        rw [hput.at_v, stakeOf_eq hs]
        exact Nat.le_refl _
      · rw [hput.off_v v hu]
        exact Nat.le_refl _
    | @slash u amount a s hs ha =>
      have hput : Put c u { s with amount := a }
          { c with stakes := c.stakes.insert u { s with amount := a } } := put_insert rfl
      by_cases hu : v = u
      · subst hu
        have hz : amount = 0 := by
          by_contra hne
          exact hk (.inl ⟨amount, hne, rfl⟩)
        rw [hput.at_v, stakeOf_eq hs, Word.le_def]
        rw [hz, Word.val_zero] at ha
        exact Nat.le_of_eq ha
      · rw [hput.off_v v hu]
        exact Nat.le_refl _
    | _ => exact Nat.le_refl _

/-- Time does not go back, and the terms stay. -/
theorem next_times (hR : c.Reaches) (hn : Next c (e, answer) c') :
    c.now ≤ c'.now ∧ c'.store.config.params.unbondingPeriodSecs =
      c.store.config.params.unbondingPeriodSecs := by
  refine ⟨?_, ?_⟩
  · rcases step_ok hn with ⟨c₁, view, info, msg, store, resp, hen, he, hr, -⟩ | ⟨-, ha⟩
    · have hnow : c₁.now = c.now := by
        cases hen with
        | call => rfl
        | send hne ht hm => rw [move_eq hm]
      rw [(runs_ok hr).now]
      exact hnow.ge
    · cases ha with
      | transfer hne hm => rw [move_eq hm]
      | time h => exact h
      | _ => exact Nat.le_refl _
  · rcases step_store hn with hs | ⟨x, hs⟩
    · rw [hs]
    · exact (step_terms hR.reachable.booked hs).period

/-- **Where a validator's stake is** while nothing takes from it: it is all still there, or some of it
is in flight. -/
structure Watched (v : String) (stake due : ℕ) (c : Chain) : Prop where
  reaches : c.Reaches
  soon : due ≤ satAdd64 c.now c.store.config.params.unbondingPeriodSecs
  there : c.now < due → stake ≤ (c.stakeOf v).amount.val ∨ InFlight v due c.store

/-- **An event leaves it so** where it takes nothing from the validator. -/
theorem Watched.next {stake : ℕ} (h : Watched v stake due c) (hn : Next c (e, answer) c')
    (hk : ¬ TakesFrom v c (e, answer)) : Watched v stake due c' := by
  have hR := h.reaches
  obtain ⟨hle, hperiod⟩ := next_times hR hn
  have hsoon : due ≤ satAdd64 c'.now c'.store.config.params.unbondingPeriodSecs := by
    have := h.soon
    rw [hperiod]
    unfold satAdd64 at this ⊢
    omega
  refine ⟨hR.next hn, hsoon, fun hnow => ?_⟩
  have hB := hR.reachable.booked
  have hS := hR.reachable.slotted
  have hkept := stake_kept hn hk
  have hthere := h.there (by omega)
  rcases step_ok hn with ⟨c₁, view, info, msg, store, resp, hen, he, hr, -⟩ | ⟨-, ha⟩
  · have hnow₁ : c₁.env.time = c.now := by
      cases hen with
      | call => rfl
      | send hne ht hm => rw [move_eq hm]; rfl
    have hstore : c'.store = store := (runs_ok hr).store
    rw [hstore]
    rw [← hen.store_eq] at hB hS
    rcases hkept with hkept | hv
    · rcases hthere with hstake | hf
      · exact .inl (Nat.le_trans hstake (Word.le_def.1 hkept))
      · refine .inr ?_
        rw [← hen.store_eq] at hf
        have hbal : (c₁.deps view).queryBalance c₁.env.contract.address c₁.store.config.bondedDenom =
            .ok c₁.balance := by simp [deps, env]
        exact hf.execute hB hS hbal he (by omega)
    · -- what is undelegated now is in flight for a whole period
      rw [hen.emitted_eq he] at hv
      obtain ⟨id, w, hw, hs, hmem, hmat⟩ := execute_flies hB he hv
      refine .inr ⟨id, w, hw, hs, hmem, Nat.le_trans h.soon ?_⟩
      rwa [hnow₁, hen.store_eq] at hmat
  · rcases hkept with hkept | hv
    · rcases hthere with hstake | ⟨id, w, hw, hs, hmem, hmat⟩
      · exact .inl (Nat.le_trans hstake (Word.le_def.1 hkept))
      · have hwindows : c'.store.windows = c.store.windows := by
          cases ha with
          | transfer hne hm => rw [move_eq hm]
          | migrate hm => rw [(migrate_ok hm).1]
          | _ => rfl
        exact .inr ⟨id, w, hwindows ▸ hw, hs, hmem, hmat⟩
    · cases ha <;> cases hv

end Chain

/-! ## What the keeper finds -/

namespace Keeper

/-- What is remembered of a validator is what an entry had. -/
theorem recorded_lookup {was : ℕ} {validators : List ValidatorEntry}
    (h : (recorded validators).lookup v = some was) :
    ∃ x ∈ validators, x.address = v ∧ x.bonded.val = was := by
  have hfold : ∀ (vs : List ValidatorEntry) (current : Keymap String ℕ),
      (vs.foldl (fun current x => current.insert x.address x.bonded.val) current).lookup v = some was →
      current.lookup v = some was ∨ ∃ x ∈ vs, x.address = v ∧ x.bonded.val = was := by
    intro vs
    induction vs with
    | nil => exact fun current h => .inl h
    | cons x vs ih =>
      intro current h
      rcases ih _ h with hl | ⟨y, hy, hya⟩
      · rcases Keymap.put_cases hl with ⟨hv, hb⟩ | ⟨-, hl⟩
        · exact .inr ⟨x, List.mem_cons_self, hv.symm, hb.symm⟩
        · exact .inl hl
      · exact .inr ⟨y, List.mem_cons_of_mem x hy, hya⟩
  rcases hfold validators ∅ h with hl | hx
  · cases hl
  · exact hx

/-- A validator that has drifted has less than was remembered, and no entry. -/
theorem drifted_ok {previous : Keymap String ℕ} {x : ValidatorEntry} {f : Finding}
    (h : drifted previous x = some f) : ∃ was, previous.lookup x.address = some was ∧
      x.bonded.val < was ∧ x.activeUnbondEntries = 0 := by
  unfold drifted at h
  split at h
  · cases h
  · cases h
  · rename_i was hne hl
    split at h
    · rename_i hdrop
      exact ⟨was, hl, hdrop⟩
    · cases h

end Keeper

namespace Chain

variable {c c' : Chain} {h : List (ChainEvent × Option ExecuteAnswer)}

/-- **Where a drift comes from.** Take two passes of the keeper less than an unbonding period apart.
A validator that the second finds to have drifted had less delegated to it than the cache said at the
first; or a slash in between took from it, or a rebalance. -/
theorem drift_explained (hR : c.Reaches) (hrun : Run Next c h c')
    (hsoon : c'.now < satAdd64 c.now c.store.config.params.unbondingPeriodSecs) (memory : Keeper.Memory) :
    ∀ f ∈ (Keeper.checkValidatorDrift c'.store.validators
        (Keeper.checkValidatorDrift c.store.validators memory).1).2,
      ∃ x ∈ c'.store.validators,
        Keeper.drifted (Keeper.recorded c.store.validators) x = some f ∧
        ((∃ u ∈ c.store.validators, u.address = x.address ∧
            (c.stakeOf x.address).amount < u.bonded) ∨
          ∃ c₁ e c₂ h₁ h₂, h = h₂ ++ e :: h₁ ∧ Run Next c h₁ c₁ ∧ Next c₁ e c₂ ∧ Run Next c₂ h₂ c' ∧
            TakesFrom x.address c₁ e) := by
  intro f hf
  obtain ⟨x, hx, hdrift⟩ := List.mem_filterMap.1 hf
  refine ⟨x, hx, hdrift, ?_⟩
  obtain ⟨was, hl, hless, hentries⟩ := Keeper.drifted_ok hdrift
  obtain ⟨u, hu, hua, hub⟩ := Keeper.recorded_lookup hl
  rcases hrun.guarded_or fun c e => ¬ TakesFrom x.address c e with hg | ⟨c₁, e, c₂, h₁, h₂, hh, h₁r, hn, h₂r, ht⟩
  swap
  · exact .inr ⟨c₁, e, c₂, h₁, h₂, hh, h₁r, hn, h₂r, not_not.1 ht⟩
  refine .inl ⟨u, hu, hua, ?_⟩
  -- otherwise what was remembered is still delegated, or in flight
  by_contra hle
  have hstart : Watched x.address was (satAdd64 c.now c.store.config.params.unbondingPeriodSecs) c :=
    ⟨hR, Nat.le_refl _, fun _ => .inl (by rw [← hub]; exact not_lt.1 hle)⟩
  have hend := hg.inv hstart fun _ _ _ hW hs => hW.next hs.1 hs.2
  rcases hend.there hsoon with hstake | hflies
  · have := Word.le_def.1 (hend.reaches.covered x hx)
    omega
  · exact hflies.entries hend.reaches.reachable.slotted hx rfl hentries

/-- The validator that has the deposit is slashed, and the keeper syncs. -/
def devPunished : List ChainEvent :=
  [.slash "validatortwo" (Uint128.new 5000000), devEnter "keeper" 0 (.sync none)]

set_option maxRecDepth 10000 in
/-- The drift that the keeper then finds has a slash behind it, since the cache was right before. -/
theorem drift_explained_slashed : ∃ c c' h, Reaches c ∧ Run Next c h c' ∧
    ∃ f ∈ (Keeper.checkValidatorDrift c'.store.validators
        (Keeper.checkValidatorDrift c.store.validators Keeper.Memory.fresh).1).2,
      f.severity = .alert ∧ ∃ x ∈ c'.store.validators,
        Keeper.drifted (Keeper.recorded c.store.validators) x = some f ∧
        ((∃ u ∈ c.store.validators, u.address = x.address ∧
            (c.stakeOf x.address).amount < u.bonded) ∨
          ∃ c₁ e c₂ h₁ h₂, h = h₂ ++ e :: h₁ ∧ Run Next c h₁ c₁ ∧ Next c₁ e c₂ ∧ Run Next c₂ h₂ c' ∧
            TakesFrom x.address c₁ e) := by
  have hrun : (devChain.replay [devSeed, devEnter "user" (Uint128.new 100000000) .deposit]).map
      (fun s => (s.1.replay devPunished).map fun s' =>
        (decide (s'.1.now < satAdd64 s.1.now s.1.store.config.params.unbondingPeriodSecs),
          (Keeper.checkValidatorDrift s'.1.store.validators
            (Keeper.checkValidatorDrift s.1.store.validators Keeper.Memory.fresh).1).2.map
              (·.severity))) = some (some (true, [.alert])) := by decide +kernel
  obtain ⟨⟨c, h₀⟩, hc, hs⟩ := Option.map_eq_some_iff.1 hrun
  obtain ⟨⟨c', h⟩, hc', hs⟩ := Option.map_eq_some_iff.1 hs
  obtain ⟨hsoon, hf⟩ := Prod.mk.inj hs
  obtain ⟨f, hf, hseverity⟩ := List.map_eq_singleton_iff.1 hf
  have hR : c.Reaches := ⟨devChain, h₀, devChain_fresh, replay_ok hc⟩
  have hmem : f ∈ (Keeper.checkValidatorDrift c'.store.validators
      (Keeper.checkValidatorDrift c.store.validators Keeper.Memory.fresh).1).2 := by
    rw [hf]
    exact List.mem_singleton_self f
  exact ⟨c, c', h, hR, replay_ok hc', f, hmem, hseverity,
    drift_explained hR (replay_ok hc') (of_decide_eq_true hsoon) _ f hmem⟩

end Chain

end LstCore
