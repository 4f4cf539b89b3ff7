import LstCore.Main.Coverage
import LstCore.Main.Placement

/-!
# Who receives stake

Placement delegates to active validators alone. A plan of the manager only has to name members of
the allowlist, which a validator that is draining or removed may still be on; so the stake of those
grows exactly in the runs with a plan that moves some to one of them (`only_active_staked`). In the
others a validator that is removed has nothing, cached or on chain.
-/

namespace LstCore

open Lib

variable {deps : Deps} {env : Env} {info : MessageInfo} {st st' : Storage}
  {set set' : List ValidatorEntry} {messages : List CosmosMsg} {resp : Response}

/-! ## Placement -/

theorem actives_of_posts (h : posts set' = posts set) :
    (actives set').map (·.address) = (actives set).map (·.address) := by
  have hcol : ∀ s : List ValidatorEntry, (actives s).map (·.address) =
      ((posts s).filter fun p => p.2.2 = .active).map (·.1) := by
    intro s
    rw [posts, List.filter_map, List.map_map]
    rfl
  rw [hcol, h, ← hcol]

theorem placeStake_active {amount : Uint128} {validator : String}
    (h : placeStake amount set = .ok (set', validator)) : validator ∈ (actives set).map (·.address) := by
  obtain ⟨i, v, b, hi, hv, -, -, rfl⟩ := placeStake_eq_ok.1 h
  obtain ⟨u, hu⟩ := Validators.selectForDelegation_furthest hi
  obtain rfl : v = u := Option.some.inj (hv.symm.trans hu.entry)
  exact List.mem_map_of_mem (List.mem_filter.2 ⟨List.mem_of_getElem? hv, by simpa using hu.active⟩)

theorem placed_within {validator denom : String} {amount : Uint128}
    (hv : validator ∈ (actives set).map (·.address)) :
    Within (actives set) [delegateMsg validator denom amount] := by
  refine within_cons.2 ⟨?_, within_nil⟩
  rintro _ ⟨⟩
  exact hv

/-- A harvest withdraws, restakes with an active validator, and mints the fee. -/
theorem Compounded.within_active {limit : Option ℕ} (c : Compounded deps env limit st) :
    Within (actives st.validators) c.messages := by
  refine within_append.2 ⟨within_of_none fun m hm => ?_, ?_⟩
  · obtain ⟨v, -, rfl⟩ := List.mem_map.1 hm
    rfl
  · rcases restake_ok c.restake_eq with ⟨-, -, hnil, -⟩ | ⟨-, _, validator, fee, -, hplace, -, hf, hmsg⟩
    · exact hnil ▸ within_nil
    · have hposts : posts (harvestedSet deps env st c.stop) = posts st.validators :=
        map_withPage (by rw [List.map_map]; rfl)
      rw [hmsg]
      refine within_append.2 ⟨placed_within (actives_of_posts hposts ▸ placeStake_active hplace), ?_⟩
      rcases feeMessages_ok hf with rfl | ⟨_, _, rfl⟩
      · exact within_nil
      · exact within_nil.cons rfl

/-- **A call that is no plan** delegates to active validators alone. -/
theorem execute_within_active {msg : ExecuteMsg} (hB : Booked st)
    (hp : ∀ plan, msg ≠ .manager (.rebalance plan))
    (h : execute deps env info msg st = .ok (st', resp)) : Within (actives st.validators) resp.messages := by
  cases msg with
  | deposit =>
    obtain ⟨st₁, _, _, _, closing, ha, hc, hm⟩ := executeDeposit_ok h
    obtain ⟨d, rfl, rfl⟩ := acceptDeposit_ok ha
    rw [hm]
    refine within_append.2 ⟨(placed_within ?_).cons rfl, overdue_within hc⟩
    rw [← actives_of_posts ((refreshTotals_unmoved d.refreshed).column fixed_posts)]
    exact placeStake_active d.placed
  | receive sender fromAddr amount hook =>
    obtain ⟨st₁, _, _, _, closing, -, hc, hm⟩ := executeReceive_ok h
    rw [hm]
    exact (overdue_within hc).cons rfl
  | claimMatured windowIds =>
    obtain ⟨_, _, _, _, _, -, -, -, -, -, hm⟩ := executeClaimMatured_ok hB h
    rw [hm]
    exact within_nil.cons rfl
  | compound limit =>
    obtain ⟨c, rfl, hm, -⟩ := executeCompound_ok h
    exact hm ▸ c.within_active
  | advanceWindow =>
    obtain ⟨w, closing, hw, hopen, hdue, hc, hm⟩ := executeAdvanceWindow_ok h
    obtain ⟨used, hund, -⟩ := closeOpenWindow_ok hw hopen hdue hc
    exact hm ▸ hund.within
  | collectMatured limit =>
    obtain ⟨ids, -, hm⟩ := executeCollectMatured_ok h
    exact hm ▸ within_nil
  | sync limit =>
    obtain ⟨s, -, hm, -⟩ := executeSync_ok h
    exact hm ▸ within_nil
  | manager m =>
    rcases executeManager_ok h with ⟨_, -, -, -, hm⟩ | ⟨_, -, -, -, hm⟩ | ⟨plan, acc, rfl, -⟩
    · exact hm ▸ within_nil
    · exact hm ▸ within_nil
    · exact absurd rfl (hp plan)
  | setPaused paused =>
    obtain ⟨-, hm⟩ := executeSetPaused_ok h
    exact hm ▸ within_nil
  | bootstrap addr hash =>
    obtain ⟨s, rfl, hm⟩ := executeBootstrap_ok h
    rw [hm]
    exact ((placed_within (placeStake_active s.placed)).cons rfl).cons rfl

/-! ## Runs -/

/-- The plan of the manager in an event. -/
def ChainEvent.plan : ChainEvent → List RedelegateStep
  | .call _ _ (.manager (.rebalance plan)) => plan
  | _ => []

namespace Chain

variable {c c' c₀ : Chain} {h : List (ChainEvent × Option ExecuteAnswer)}

/-- A plan, if the event is one, moves stake to active validators alone. -/
def PlansForActive (c : Chain) (e : ChainEvent × Option ExecuteAnswer) : Prop :=
  ∀ step ∈ e.1.plan, step.amount ≠ 0 → ∀ v ∈ c.store.validators, v.address = step.dstValidator →
    v.status = .active

instance (c : Chain) (e : ChainEvent × Option ExecuteAnswer) : Decidable (c.PlansForActive e) :=
  inferInstanceAs (Decidable (∀ _ ∈ _, _ → ∀ _ ∈ _, _ → _))

/-- No message of an event adds to the stake of a validator that is draining or removed. -/
def StakesActive (c : Chain) (e : ChainEvent × Option ExecuteAnswer) : Prop :=
  ∀ v ∈ c.store.validators, v.status ≠ .active → ∀ m ∈ c.emitted e.1, m.into v.address = 0

instance (c : Chain) (e : ChainEvent × Option ExecuteAnswer) : Decidable (c.StakesActive e) :=
  inferInstanceAs (Decidable (∀ _ ∈ _, _ → ∀ _ ∈ _, _))

theorem into_eq_zero {m : CosmosMsg} {u : String} (h : m.target ≠ some u) : m.into u = 0 := by
  cases m with
  | delegate v coin => exact if_neg fun he => h (congrArg some he)
  | redelegate src dst coin => exact if_neg fun he => h (congrArg some he)
  | _ => rfl

/-- A plan adds to active validators alone exactly if each of its steps does. -/
theorem steps_active_iff {set : List ValidatorEntry} {plan : List RedelegateStep} {denom : String} :
    (∀ step ∈ plan, step.amount ≠ 0 → ∀ v ∈ set, v.address = step.dstValidator → v.status = .active) ↔
      ∀ v ∈ set, v.status ≠ .active → ∀ m ∈ plan.map fun step => CosmosMsg.redelegate step.srcValidator
        step.dstValidator ⟨denom, step.amount⟩, m.into v.address = 0 := by
  simp only [List.forall_mem_map, CosmosMsg.into]
  constructor
  · intro hact v hv hidle step hs
    refine ite_eq_right_iff.2 fun hd => Classical.byContradiction fun hne => hidle ?_
    exact hact step hs (mt Word.eq_zero_iff.1 hne) v hv hd.symm
  · intro hact step hs hne v hv hd
    by_contra hidle
    have := hact v hv hidle step hs
    rw [if_pos hd.symm] at this
    exact hne (Word.eq_zero_iff.2 this)

/-- **An event stakes with active validators alone** exactly if its plan does. -/
theorem stakesActive_iff {e : ChainEvent × Option ExecuteAnswer} (hR : c.Reaches) (hn : Next c e c') :
    c.PlansForActive e ↔ c.StakesActive e := by
  obtain ⟨e, answer⟩ := e
  have hnd := hR.reachable.slotted.distinct
  rcases step_ok hn with ⟨c₁, view, info, msg, store, resp, hen, he, -, -⟩ | ⟨-, ha⟩
  · by_cases hp : ∃ plan, msg = .manager (.rebalance plan)
    · -- a plan is one message for each step
      obtain ⟨plan, rfl⟩ := hp
      have hmgr : executeManager info (.rebalance plan) c₁.store = .ok (store, resp) := he
      obtain ⟨_, hm, -⟩ | ⟨_, hm, -⟩ | ⟨_, acc, hm, hacc, -, hmsg⟩ := executeManager_ok hmgr
      · cases hm
      · cases hm
      cases hm
      have hem : c.emitted e = plan.map fun step => .redelegate step.srcValidator step.dstValidator
          ⟨c₁.store.config.bondedDenom, step.amount⟩ := by
        rw [hen.emitted_eq he, hmsg, (rebalance_ok hacc).2.2.2, List.nil_append]
      have hplan : e.plan = plan := by
        cases hen
        rfl
      rw [PlansForActive, StakesActive, hem, hplan]
      exact steps_active_iff
    · rw [not_exists] at hp
      have hplan : e.plan = [] := by
        cases hen with
        | send => rfl
        | call =>
          unfold ChainEvent.plan
          split
          · rename_i plan heq
            cases heq
            exact absurd rfl (hp plan)
          · rfl
      refine iff_of_true (fun step hs => ?_) fun v hv hidle m hm => into_eq_zero fun ht => hidle ?_
      · rw [hplan] at hs
        exact absurd hs List.not_mem_nil
      · -- whoever it delegates to is active, and nobody else has that address
        rw [hen.emitted_eq he] at hm
        have hB : Booked c₁.store := hen.store_eq ▸ hR.reachable.booked
        obtain ⟨u, hu, hua⟩ := List.mem_map.1 (execute_within_active hB hp he m hm _ ht)
        rw [hen.store_eq] at hu
        obtain ⟨hu, hactive⟩ := List.mem_filter.1 hu
        obtain rfl := entry_unique hnd hu hv hua
        exact of_decide_eq_true hactive
  · have hnone : e.plan = [] ∧ c.emitted e = [] := by cases ha <;> exact ⟨rfl, rfl⟩
    simp only [PlansForActive, StakesActive, hnone]
    exact iff_of_true (fun _ h => absurd h List.not_mem_nil) fun _ _ _ _ h => absurd h List.not_mem_nil

/-- Whoever is removed has nothing cached. -/
def Emptied (c : Chain) : Prop := ∀ v ∈ c.store.validators, v.status = .removed → v.bonded = 0

theorem Emptied.next {e : ChainEvent × Option ExecuteAnswer} (h : Emptied c) (hR : c.Reaches)
    (hact : c.StakesActive e) (hn : Next c e c') : Emptied c' := by
  intro v' hv' hrem
  obtain ⟨-, ⟨u, hu, hua, hst, hup⟩ | hset⟩ := hR.covered.entry hR hn hv'
  · have hidle : u.status ≠ .active := by
      rw [hst, hrem]
      simp
    have hinto : intoBy (c.emitted e.1) v'.address = 0 := List.sum_eq_zero fun _ hx => by
      obtain ⟨m, hm, rfl⟩ := List.mem_map.1 hx
      exact hua ▸ hact u hu hidle m hm
    rw [hinto, h u hu (hst.trans hrem)] at hup
    exact Word.eq_zero_iff.2 (Nat.le_zero.1 hup)
  · exact hset hrem

/-- A fresh set is all active. -/
theorem Fresh.emptied (h : c.Fresh) : Emptied c := by
  obtain ⟨-, -, -, view, info, msg, resp, hi⟩ := h
  obtain ⟨config, -, -, -, -, -, hst⟩ := instantiate_ok hi
  intro v hv hrem
  rw [hst] at hv
  obtain ⟨w, -, rfl⟩ := List.mem_map.1 hv
  cases hrem

/-- An event that stakes with active validators alone grows no other delegation. -/
theorem StakesActive.stake_le {e : ChainEvent × Option ExecuteAnswer} {v : ValidatorEntry}
    (hact : c.StakesActive e) (hn : Next c e c') (hv : v ∈ c.store.validators)
    (hidle : v.status ≠ .active) : (c'.stakeOf v.address).amount ≤ (c.stakeOf v.address).amount := by
  obtain ⟨e, answer⟩ := e
  rcases step_ok hn with ⟨c₁, view, info, msg, store, resp, hen, he, hr, -⟩ | ⟨-, ha⟩
  · have hamount : (c'.stakeOf v.address).amount.val + outBy resp.messages v.address =
      (c₁.stakeOf v.address).amount.val + intoBy resp.messages v.address := (runs_ok hr).amount v.address
    have hinto : intoBy resp.messages v.address = 0 := List.sum_eq_zero fun _ hx => by
      obtain ⟨m, hm, rfl⟩ := List.mem_map.1 hx
      exact hact v hv hidle m (hen.emitted_eq he ▸ hm)
    rw [hinto, (stakeOf_congr hen.stakes_eq).1] at hamount
    rw [Word.le_def]
    omega
  · exact ha.stake_le.1 _

/-- **Only active validators receive stake.** Among the runs of the contract on its chain, those
whose accepted plans move stake to active validators alone are those in which no message adds to the
stake of a validator that is draining or removed. There no event grows the delegation of one, and
whoever is removed has nothing, cached or on chain. -/
theorem only_active_staked (h0 : c₀.Fresh) :
    (Run (Guarded Next PlansForActive) c₀ h c ↔ Run (Guarded Next StakesActive) c₀ h c) ∧
    (Run (Guarded Next PlansForActive) c₀ h c →
      (∀ v ∈ c.store.validators, v.status = .removed →
        v.bonded = 0 ∧ (c.stakeOf v.address).amount = 0) ∧
      ∀ e c', Next c e c' → PlansForActive c e → ∀ v ∈ c.store.validators, v.status ≠ .active →
        (c'.stakeOf v.address).amount ≤ (c.stakeOf v.address).amount) := by
  have hreach : Reaches c₀ := ⟨c₀, [], h0, .nil⟩
  have hguard : ∀ {g g' : Chain → ChainEvent × Option ExecuteAnswer → Prop},
      (∀ c e c', c.Reaches → Next c e c' → g c e → g' c e) →
      Run (Guarded Next g) c₀ h c → Run (Guarded Next g') c₀ h c := fun hgg hr =>
    (hr.guarded_mono hreach fun c e c' hR hn hg => ⟨hgg c e c' hR hn hg, hR.next hn⟩).1
  have hiff : Run (Guarded Next PlansForActive) c₀ h c ↔ Run (Guarded Next StakesActive) c₀ h c :=
    ⟨hguard fun _ _ _ hR hn => (stakesActive_iff hR hn).1,
      hguard fun _ _ _ hR hn => (stakesActive_iff hR hn).2⟩
  refine ⟨hiff, fun hr => ?_⟩
  have hrun := hiff.1 hr
  have hempty : c.Reaches ∧ Emptied c := by
    refine hrun.inv (P := fun c => c.Reaches ∧ Emptied c) ⟨hreach, h0.emptied⟩ ?_
    rintro c e c' ⟨hR, hE⟩ ⟨hn, hact⟩
    exact ⟨hR.next hn, hE.next hR hact hn⟩
  obtain ⟨hR, hE⟩ := hempty
  refine ⟨fun v hv hrem => ⟨hE v hv hrem, ?_⟩, fun e c' hn hg v hv hidle =>
    ((stakesActive_iff hR hn).1 hg).stake_le hn hv hidle⟩
  have hcov := hR.covered v hv
  rw [hE v hv hrem] at hcov
  exact Word.eq_zero_iff.2 (Nat.le_zero.1 hcov)

end Chain

/-! ## A validator that has left -/

/-- The deployment with a fifth validator on the allowlist. -/
def devFive : Chain := { devChain with
  store := initialStorage ⟨devStart, devSelf⟩ devConfig
    (devInit.validatorAllowlist ++ ["validatorfive"]) devValidators }

theorem devFive_fresh : devFive.Fresh :=
  ⟨rfl, rfl, rfl, devView 0 [], ⟨"deployer", []⟩,
    { devInit with validatorAllowlist := devInit.validatorAllowlist ++ ["validatorfive"] }, ⟨[], none⟩,
    by rfl⟩

/-- The manager takes the weight of the first validator for the fifth. -/
def devReplace : ChainEvent := devEnter "manager" 0 (.manager (.setWeights
  (["validatortwo", "validatorthree", "validatorfour", "validatorfive"].map fun v => ⟨v, 2500⟩)))

/-- It moves stake from a validator to another. -/
def devShift (src dst : String) (amount : Uint128) : ChainEvent :=
  devEnter "manager" 0 (.manager (.rebalance [⟨src, dst, amount⟩]))

/-- Two deposits go to the second validator and the third. The first one drains, its 10 SCRT go to
the second, and it is removed. -/
def devDrained : List ChainEvent := [devSeed, devEnter "user" (Uint128.new 100000000) .deposit,
  devEnter "user" (Uint128.new 100000000) .deposit, devReplace,
  devShift "validatorone" "validatortwo" (Uint128.new 10000000), devReplace]

/-- How the first validator stands: its status, its stake as cached, and its stake on chain. -/
def devStanding (c : Chain) : Option (ValidatorStatus × Uint128 × Uint128) :=
  (c.store.validators.head?).map fun v => (v.status, v.bonded, (c.stakeOf v.address).amount)

theorem devStanding_mem {c : Chain} {s : ValidatorStatus} {b a : Uint128}
    (h : devStanding c = some (s, b, a)) : ∃ v ∈ c.store.validators, v.status = s ∧ v.bonded = b ∧
      (c.stakeOf v.address).amount = a := by
  obtain ⟨v, hv, he⟩ := Option.map_eq_some_iff.1 h
  simp only [Prod.mk.injEq] at he
  exact ⟨v, List.mem_of_mem_head? hv, he⟩

namespace Chain

set_option maxRecDepth 10000 in
/-- Five SCRT move from the third validator, which no redelegation has gone to, to the first, which
has been removed. -/
theorem removed_restaked : ¬ ∀ (c₀ c : Chain) (h : List (ChainEvent × Option ExecuteAnswer)),
    c₀.Fresh → Run Next c₀ h c → Run (Guarded Next StakesActive) c₀ h c ∧
      ∀ v ∈ c.store.validators, v.status = .removed → v.bonded = 0 ∧ (c.stakeOf v.address).amount = 0 := by
  have hrun : (devFive.replay (devDrained ++
      [devShift "validatorthree" "validatorone" (Uint128.new 5000000)])).map (fun s => devStanding s.1) =
      some (some (.removed, Uint128.new 5000000, Uint128.new 5000000)) := by decide +kernel
  obtain ⟨⟨c, h⟩, hs, hst⟩ := Option.map_eq_some_iff.1 hrun
  obtain ⟨v, hv, hrem, hb, -⟩ := devStanding_mem hst
  intro hall
  have hz := ((hall _ _ _ devFive_fresh (replay_ok hs)).2 v hv hrem).1
  rw [hb] at hz
  exact absurd hz (by decide)

set_option maxRecDepth 10000 in
/-- A validator that has been removed with nothing left. -/
theorem only_active_staked_drained : ∃ (c : Chain) (v : ValidatorEntry), c.Reaches ∧
    v ∈ c.store.validators ∧ v.status = .removed ∧ v.bonded = 0 ∧ (c.stakeOf v.address).amount = 0 := by
  have hrun : (devFive.replayIf PlansForActive devDrained).map (fun s => devStanding s.1) =
      some (some (.removed, 0, 0)) := by decide +kernel
  obtain ⟨⟨c, h⟩, hs, hst⟩ := Option.map_eq_some_iff.1 hrun
  obtain ⟨v, hv, hrem, -⟩ := devStanding_mem hst
  have hguarded := replayIf_ok hs
  obtain ⟨hb, ha⟩ := ((only_active_staked devFive_fresh).2 hguarded).1 v hv hrem
  exact ⟨c, v, ⟨_, _, devFive_fresh, hguarded.mono fun _ _ _ hn => hn.1⟩, hv, hrem, hb, ha⟩

end Chain

end LstCore
