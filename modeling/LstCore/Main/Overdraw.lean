import LstCore.Proof.Assets
import LstCore.Proof.Drawing

/-!
# Undelegating what is there

`AdvanceWindow` plans on the cached stakes, and does not read the delegations first as a deposit
and a request do. What it undelegates is there when every validator it draws on still holds what
is drawn, and then the chain takes all of it; a slashing since the last read can leave less, and
then the chain refuses (`advance_backed_iff`).
-/

namespace LstCore

open Lib

variable {env : Env} {st st' : Storage} {messages : List CosmosMsg}

/-! ## The messages of a closing -/

/-- The message that draws on a validator. -/
def undelegateMsg (denom : String) (p : String × Uint128) : CosmosMsg := .undelegate p.1 ⟨denom, p.2⟩

/-- The validator that a leg draws on, and what it draws. -/
def drawnBy (addresses : List String) (leg : Validators.UnbondLeg) : Option (String × Uint128) :=
  addresses[leg.index]?.map fun a => (a, leg.amount)

theorem issueLegs_messages {denom : String} : ∀ {legs : List Validators.UnbondLeg}
    {acc acc' : LegAcc}, legs.foldlM (issueLeg denom) acc = .ok acc' →
    acc'.messages = acc.messages ++
      (legs.filterMap (drawnBy (acc.set.map (·.address)))).map (undelegateMsg denom) := by
  intro legs
  induction legs with
  | nil =>
    intro acc acc' h
    simp only [List.foldlM_nil, pure_eq_ok] at h
    simp [h]
  | cons leg legs ih =>
    intro acc acc' h
    rw [List.foldlM_cons, bind_eq_ok] at h
    obtain ⟨mid, hmid, h⟩ := h
    obtain ⟨v, hv, rfl⟩ := issueLeg_eq_ok.1 hmid
    -- a leg leaves the addresses as they are
    have haddr : drawnBy (acc.set.map (·.address)) leg = some (v.address, leg.amount) := by
      rw [drawnBy, List.getElem?_map, hv]
      rfl
    rw [ih h, map_set hv (by rfl), List.filterMap_cons, haddr, List.map_cons, List.append_assoc]
    rfl

theorem undelegations_map (denom : String) (l : List (String × Uint128)) :
    undelegations (l.map (undelegateMsg denom)) = l := by
  induction l with
  | nil => rfl
  | cons p l ih =>
    rw [List.map_cons, undelegations, List.filterMap_cons]
    exact congrArg _ ih

/-- **What a closing draws**, and on whom. -/
theorem Undelegated.drawn {w : UnbondWindow} {vs : List ValidatorEntry} {ts : TotalsCache}
    {used : List String} (h : Undelegated st w vs ts used messages) (hw : w.scrtOwed ≠ 0) :
    ∃ legs, Validators.planUndelegation st.validators w.scrtOwed
        st.config.params.maxUnbondEntriesPerValidator = .ok legs ∧
      messages = (legs.filterMap (drawnBy (st.validators.map (·.address)))).map
        (undelegateMsg st.config.bondedDenom) := by
  cases h with
  | nothing hz => exact absurd hz hw
  | issued hz hplan hissue hou =>
    rw [issueLegs_messages hissue]
    exact ⟨_, hplan, rfl⟩

/-! ## What the chain takes -/

namespace Chain

variable {c c' c₁ : Chain} {view : Deps} {info : MessageInfo} {v : String} {amount : Uint128}
  {denom : String}

/-- An undelegation that the chain has taken. -/
theorem undelegate_ok (h : c.run (undelegateMsg denom (v, amount)) = some c') :
    amount ≤ (c.stakeOf v).amount ∧ c'.store = c.store ∧
      c'.balance.val + c'.held = c.balance.val + c.held ∧ ∀ u, u ≠ v → c'.stakeOf u = c.stakeOf u := by
  simp only [undelegateMsg, run, Option.bind_eq_bind, Option.bind_eq_some_iff] at h
  obtain ⟨a, ha, c₁, hc, hs⟩ := h
  obtain rfl := staked_ok ha
  obtain ⟨hon, hb, p, -⟩ := collect_ok hc
  obtain ⟨hon', hb', ⟨left, hleft, p'⟩, -⟩ := shrink_ok hs (by rw [p.at_v])
  have hheld := p.held
  have hheld' := p'.held
  rw [p.at_v] at hleft hheld'
  dsimp only at hleft hheld hheld'
  refine ⟨Word.le_def.2 (by omega), hon'.store.trans hon.store, ?_, fun u hu => ?_⟩
  · rw [hb', hb]
    simp only [Word.val_zero] at hheld hheld'
    omega
  · rw [p'.off_v u hu, p.off_v u hu]

/-- The chain takes an undelegation of what is there, as long as the rewards fit the balance. -/
theorem exists_undelegate (hfits : c.balance.val + c.held < 2 ^ 128) (hne : amount ≠ 0)
    (hle : amount ≤ (c.stakeOf v).amount) :
    ∃ c', c.run (undelegateMsg c.store.config.bondedDenom (v, amount)) = some c' := by
  have hheld := held_le (c := c) (v := v)
  cases hs : c.stakes.lookup v with
  | none =>
    rw [stakeOf, hs] at hle
    exact absurd (Word.eq_zero_iff.2 (Nat.le_zero.1 (Word.le_def.1 hle))) hne
  | some s =>
    rw [stakeOf_eq hs] at hle hheld
    obtain ⟨b, hb⟩ := Word.exists_add? (a := c.balance) (b := s.rewards) (by omega)
    have hleft : s.amount.sub? amount = some (s.amount.satSub amount) := by
      rw [Word.sub?_eq_some, Word.val_satSub]
      have := Word.le_def.1 hle
      omega
    simp only [undelegateMsg, run, staked, if_true, collect, hs, hb, shrink, AList.lookup_insert,
      hleft, Option.bind_eq_bind, Option.bind_some, Option.pure_def]
    exact ⟨_, rfl⟩

/-- **The chain takes undelegations from different validators** exactly when each of them holds
what is undelegated. -/
theorem undelegations_iff : ∀ {l : List (String × Uint128)} {c : Chain}, (l.map (·.1)).Nodup →
    (∀ p ∈ l, p.2 ≠ 0) → c.balance.val + c.held < 2 ^ 128 →
    ((∃ c', (l.map (undelegateMsg c.store.config.bondedDenom)).foldlM run c = some c') ↔
      ∀ p ∈ l, p.2 ≤ (c.stakeOf p.1).amount) := by
  intro l
  induction l with
  | nil => exact fun _ _ _ => ⟨fun _ p hp => absurd hp (List.not_mem_nil), fun _ => ⟨_, rfl⟩⟩
  | cons q l ih =>
    intro c hnd hne hfits
    rw [List.map_cons, List.nodup_cons] at hnd
    -- what is undelegated from one is not what the others hold
    have hrest : ∀ {c₁ : Chain}, c.run (undelegateMsg c.store.config.bondedDenom q) = some c₁ →
        ((∃ c', (l.map (undelegateMsg c.store.config.bondedDenom)).foldlM run c₁ = some c') ↔
          ∀ p ∈ l, p.2 ≤ (c.stakeOf p.1).amount) := by
      intro c₁ h₁
      obtain ⟨-, hstore, hbal, hoff⟩ := undelegate_ok h₁
      rw [← hstore, ih hnd.2 (fun p hp => hne p (List.mem_cons_of_mem _ hp)) (hbal ▸ hfits)]
      refine forall₂_congr fun p hp => ?_
      rw [hoff p.1 fun heq => hnd.1 (heq ▸ List.mem_map_of_mem hp)]
    rw [List.map_cons, List.foldlM_cons]
    simp only [Option.bind_eq_bind, Option.bind_eq_some_iff, List.forall_mem_cons]
    constructor
    · rintro ⟨c', c₁, h₁, hr⟩
      exact ⟨(undelegate_ok h₁).1, (hrest h₁).1 ⟨c', hr⟩⟩
    · rintro ⟨hq, hall⟩
      obtain ⟨c₁, h₁⟩ := exists_undelegate hfits (hne q List.mem_cons_self) hq
      obtain ⟨c', hr⟩ := (hrest h₁).2 hall
      exact ⟨c', c₁, h₁, hr⟩

/-! ## Advancing -/

/-- Every validator that the open window draws on holds what is drawn: all that the cache has of it,
or what the ones before it leave. -/
def Backed (c : Chain) (owed : Uint128) : Prop :=
  ∀ before d after v, Validators.drawOrder c.store.validators
      c.store.config.params.maxUnbondEntriesPerValidator = .ok (before ++ d :: after) →
    c.store.validators[d.index]? = some v →
    min (owed.val - (before.map (·.bonded.val)).sum) d.bonded.val ≤ (c.stakeOf v.address).amount.val

/-- **What a plan draws is there** exactly when the chain backs it. -/
theorem plan_backed_iff {owed : Uint128} {legs : List Validators.UnbondLeg} (hne : owed ≠ 0)
    (h : Validators.planUndelegation c.store.validators owed
      c.store.config.params.maxUnbondEntriesPerValidator = .ok legs) :
    (∀ p ∈ legs.filterMap (drawnBy (c.store.validators.map (·.address))),
      p.2 ≤ (c.stakeOf p.1).amount) ↔ c.Backed owed := by
  obtain ⟨cs, hcs, -, rfl⟩ := (Validators.planUndelegation_eq_ok hne).1 h
  have ho := Validators.drawOrder_ok hcs
  have hnz := ho.nonzero
  have hdrawn : ∀ {leg : Validators.UnbondLeg} {v}, c.store.validators[leg.index]? = some v →
      drawnBy (c.store.validators.map (·.address)) leg = some (v.address, leg.amount) := by
    intro leg v hv
    rw [drawnBy, List.getElem?_map, hv]
    rfl
  constructor
  · intro hall before d after v hord hv
    rw [hcs, Except.ok.injEq] at hord
    subst hord
    by_cases hlt : (before.map (·.bonded.val)).sum < owed.val
    · obtain ⟨leg, hleg, hi, ha⟩ := Validators.takeLegs_reach hnz hlt
      rw [← ha]
      exact hall _ (List.mem_filterMap.2 ⟨leg, hleg, hdrawn (hi ▸ hv)⟩)
    · omega
  · intro hback p hp
    obtain ⟨leg, hleg, hp⟩ := List.mem_filterMap.1 hp
    obtain ⟨pre, post, hsplit⟩ := List.append_of_mem hleg
    obtain ⟨before, d, after, hord, -, hi, ha, -⟩ := Validators.takeLegs_split hnz hsplit
    obtain ⟨v, hv, -, -⟩ := ho.entry d (by rw [hord]; simp)
    rw [hdrawn (hi ▸ hv), Option.some.injEq] at hp
    subst hp
    rw [Word.le_def, ha]
    exact hback before d after v (hord ▸ hcs) hv

/-- A plan draws on different validators, and not for nothing. -/
theorem drawn_distinct {addresses : List String} {legs : List Validators.UnbondLeg}
    (hnd : addresses.Nodup) (hlegs : (legs.map (·.index)).Nodup) :
    ((legs.filterMap (drawnBy addresses)).map (·.1)).Nodup := by
  have hmap : (legs.filterMap (drawnBy addresses)).map (·.1) =
      (legs.map (·.index)).filterMap (addresses[·]?) := by
    rw [List.map_filterMap, List.filterMap_map]
    refine List.filterMap_congr fun leg _ => ?_
    show (drawnBy addresses leg).map (·.1) = addresses[leg.index]?
    unfold drawnBy
    cases addresses[leg.index]? <;> rfl
  rw [hmap]
  refine hlegs.filterMap fun i j a hi hj => ?_
  exact (List.getElem?_inj (List.getElem?_eq_some_iff.1 hi).1 hnd).1 (hi.trans hj.symm)

/-- **What a closing undelegates**: from different validators, and it is there exactly when the
chain backs it. -/
theorem closing_backed {w : UnbondWindow} {vs : List ValidatorEntry} {ts : TotalsCache}
    {used : List String} (hR : c.Reaches) (h : Undelegated c.store w vs ts used messages) :
    ∃ l : List (String × Uint128),
      messages = l.map (undelegateMsg c.store.config.bondedDenom) ∧ (l.map (·.1)).Nodup ∧
      (∀ p ∈ l, p.2 ≠ 0) ∧ ((∀ p ∈ l, p.2 ≤ (c.stakeOf p.1).amount) ↔ c.Backed w.scrtOwed) := by
  by_cases hz : w.scrtOwed = 0
  · cases h with
    | nothing =>
      refine ⟨[], rfl, List.nodup_nil, by simp, iff_of_true (by simp) ?_⟩
      intro before d after v _ _
      rw [hz]
      simp
    | issued hne => exact absurd hz hne
  · obtain ⟨legs, hplan, hm⟩ := h.drawn hz
    have hdistinct : (c.store.validators.map (·.address)).Nodup := by
      rw [← addresses_eq]
      exact hR.reachable.slotted.distinct
    refine ⟨_, hm, drawn_distinct hdistinct (Validators.planUndelegation_ok hplan).1.distinct, ?_,
      plan_backed_iff hz hplan⟩
    intro p hp
    obtain ⟨leg, hleg, hp⟩ := List.mem_filterMap.1 hp
    obtain ⟨a, -, rfl⟩ := Option.map_eq_some_iff.1 hp
    obtain ⟨cs, -, -, rfl⟩ := (Validators.planUndelegation_eq_ok hz).1 hplan
    exact (Validators.takeLegs_mem cs _ leg hleg).1

/-- **Advancing undelegates what is there**, and the chain takes it, exactly when every validator
that the open window draws on still holds what is drawn. -/
theorem advance_backed_iff {store : Storage} {resp : Response} (hR : c.Reaches)
    (hs : ¬ c.IsContract info.sender) (hf : c.fund info = some c₁)
    (he : execute (c₁.deps view) c₁.env info .advanceWindow c₁.store = .ok (store, resp)) :
    ∃ w, c.store.windows.lookup c.store.openWindow = some w ∧
      ((∀ p ∈ undelegations resp.messages, p.2 ≤ (c.stakeOf p.1).amount) ↔ c.Backed w.scrtOwed) ∧
      (c₁.balance.val + c.held < 2 ^ 128 →
        ((∃ r, c.step (.call view info .advanceWindow) = some r) ↔ c.Backed w.scrtOwed)) := by
  have henter : c₁.enter view info .advanceWindow =
      (resp.messages.foldlM run { c₁ with store := store }).bind fun c' => some (c', resp.data) := by
    unfold enter
    rw [he]
    rfl
  have hstep : (∃ r, c.step (.call view info .advanceWindow) = some r) ↔
      ∃ c', resp.messages.foldlM run { c₁ with store := store } = some c' := by
    unfold step
    dsimp only
    rw [if_neg hs, hf, Option.bind_eq_bind, Option.bind_some, henter]
    cases resp.messages.foldlM run { c₁ with store := store } <;> simp
  obtain ⟨b, rfl⟩ : ∃ b, c₁ = { c with balance := b } := by
    simp only [fund, Option.bind_eq_bind, Option.bind_eq_some_iff, Option.pure_def,
      Option.some.injEq] at hf
    obtain ⟨_, -, b, -, rfl⟩ := hf
    exact ⟨b, rfl⟩
  obtain ⟨w, closing, hw, hopen, hdue, hc, hm⟩ := executeAdvanceWindow_ok he
  obtain ⟨used, hund, ⟨hcfg, -, -⟩, -⟩ := closeOpenWindow_ok hw hopen hdue hc
  obtain ⟨l, hl, hnd, hne, hiff⟩ := closing_backed hR hund
  refine ⟨w, hw, ?_, fun hfits => ?_⟩
  · rw [hm, hl, undelegations_map]
    exact hiff
  · rw [hstep, hm, hl, ← hiff, ← hcfg]
    exact undelegations_iff (c := { c with balance := b, store := store }) hnd hne hfits

/-! ## A slashing unread -/

/-- A user deposits 100 SCRT and sends shares back; then the validator is slashed by 60, and the
window is due. -/
def devSlashed (shares : Uint128) : List ChainEvent :=
  [devSeed, devEnter "user" (Uint128.new 100000000) .deposit, devSend "user" shares,
    .slash "validatortwo" (Uint128.new 60000000), .time (devStart + 432000)]

/-- A keeper advances the window. -/
def devAdvance : MessageInfo := ⟨"keeper", []⟩

/-- What it undelegates there, what the validator holds, whether the keeper is the contract or its
token, and whether the chain takes it. -/
def devAdvanced (shares : Uint128) : Option (List (String × Uint128) × Uint128 × Bool × Bool) :=
  (devChain.replay (devSlashed shares)).bind fun s =>
    (execute (s.1.deps (devView 0 [])) s.1.env devAdvance .advanceWindow s.1.store).toOption.map fun r =>
      (undelegations r.2.messages, ((s.1.stakeOf "validatortwo").amount,
        decide (s.1.IsContract "keeper"),
        (s.1.step (.call (devView 0 []) devAdvance .advanceWindow)).isSome))

theorem devAdvanced_ok {shares stake : Uint128} {drawn : List (String × Uint128)} {taken : Bool}
    (h : devAdvanced shares = some (drawn, stake, false, taken)) :
    ∃ (c : Chain) (events : List (ChainEvent × Option ExecuteAnswer)) (store : Storage)
      (resp : Response), devChain.replay (devSlashed shares) = some (c, events) ∧ c.Reaches ∧
      ¬ c.IsContract devAdvance.sender ∧
      execute (c.deps (devView 0 [])) c.env devAdvance .advanceWindow c.store = .ok (store, resp) ∧
      undelegations resp.messages = drawn ∧ (c.stakeOf "validatortwo").amount = stake ∧
      (c.step (.call (devView 0 []) devAdvance .advanceWindow)).isSome = taken := by
  obtain ⟨⟨c, events⟩, hr, hs⟩ := Option.bind_eq_some_iff.1 h
  obtain ⟨⟨store, resp⟩, he, hs⟩ := Option.map_eq_some_iff.1 hs
  simp only [Prod.mk.injEq, decide_eq_false_iff_not] at hs
  obtain ⟨hdrawn, hstake, hsender, htaken⟩ := hs
  exact ⟨c, events, store, resp, hr, ⟨devChain, events, devChain_fresh, replay_ok hr⟩, hsender,
    toOption_eq_some.1 he, hdrawn, hstake, htaken⟩

set_option maxRecDepth 10000 in
theorem devSlashed_overdrawn : devAdvanced (Uint128.new 100000000) =
    some ([("validatortwo", Uint128.new 100000000)], (Uint128.new 40000000, false, false)) := by
  decide +kernel

/-- Nothing arrives without funds. -/
theorem fund_nil (c : Chain) (sender : Addr) : c.fund ⟨sender, []⟩ = some c := by
  have hadd : c.balance.add? 0 = some c.balance := by simp
  have hzero : Word.ofNat? 128 (amountIn c.store.config.bondedDenom []) = some 0 := rfl
  unfold fund
  dsimp only
  rw [hzero, Option.bind_eq_bind, Option.bind_some, hadd]
  rfl

/-- The contract undelegates 100 SCRT from a validator that holds 40, and the chain refuses. -/
theorem advance_overdraws : ∃ (c : Chain) (store : Storage) (resp : Response), c.Reaches ∧
    ¬ c.IsContract devAdvance.sender ∧ c.fund devAdvance = some c ∧
    execute (c.deps (devView 0 [])) c.env devAdvance .advanceWindow c.store = .ok (store, resp) ∧
    (∃ p ∈ undelegations resp.messages, ¬ p.2 ≤ (c.stakeOf p.1).amount) ∧
    c.step (.call (devView 0 []) devAdvance .advanceWindow) = none := by
  obtain ⟨c, _, store, resp, -, hR, hsender, he, hdrawn, hstake, htaken⟩ :=
    devAdvanced_ok devSlashed_overdrawn
  rw [Option.isSome_eq_false_iff, Option.isNone_iff_eq_none] at htaken
  refine ⟨c, store, resp, hR, hsender, fund_nil c _, he,
    ⟨_, hdrawn ▸ List.mem_singleton_self _, ?_⟩, htaken⟩
  rw [hstake]
  decide

set_option maxRecDepth 10000 in
/-- There the chain does not back what the window owes. It does where the window owes the 40 SCRT
that are left, and takes the transaction. -/
theorem advance_backed_slashed :
    (∃ (c : Chain) (w : UnbondWindow), c.Reaches ∧
      c.store.windows.lookup c.store.openWindow = some w ∧ ¬ c.Backed w.scrtOwed) ∧
    ∃ (c : Chain) (w : UnbondWindow), c.Reaches ∧
      c.store.windows.lookup c.store.openWindow = some w ∧ c.Backed w.scrtOwed ∧
      ∃ r, c.step (.call (devView 0 []) devAdvance .advanceWindow) = some r := by
  constructor
  · obtain ⟨c, _, store, resp, -, hR, hsender, he, hdrawn, hstake, -⟩ :=
      devAdvanced_ok devSlashed_overdrawn
    obtain ⟨w, hw, hiff, -⟩ := @advance_backed_iff c c (devView 0 []) devAdvance store resp hR hsender
      (fund_nil c _) he
    refine ⟨c, w, hR, hw, fun hback => ?_⟩
    have hle := hiff.2 hback ("validatortwo", Uint128.new 100000000) (by rw [hdrawn]; simp)
    rw [hstake] at hle
    exact absurd hle (by decide)
  · have hrun : devAdvanced (Uint128.new 40000000) =
        some ([("validatortwo", Uint128.new 40000000)], (Uint128.new 40000000, false, true)) := by
      decide +kernel
    have hrange : (devChain.replay (devSlashed (Uint128.new 40000000))).map (fun s =>
        decide (s.1.balance.val + s.1.held < 2 ^ 128)) = some true := by decide +kernel
    obtain ⟨c, _, store, resp, hr, hR, hsender, he, hdrawn, hstake, -⟩ := devAdvanced_ok hrun
    rw [hr, Option.map_some, Option.some.injEq] at hrange
    obtain ⟨w, hw, hiff, htaken⟩ := @advance_backed_iff c c (devView 0 []) devAdvance store resp hR
      hsender (fund_nil c _) he
    have hback : c.Backed w.scrtOwed := hiff.1 fun p hp => by
      rw [hdrawn, List.mem_singleton] at hp
      rw [hp, hstake]
      exact Nat.le_refl _
    exact ⟨c, w, hR, hw, hback, (htaken (of_decide_eq_true hrange)).2 hback⟩

end Chain

end LstCore
