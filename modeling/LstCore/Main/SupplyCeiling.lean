import LstCore.Proof.Config
import LstCore.Proof.Supply

/-!
# The ceiling on the supply

The ceiling is checked where a deposit is accepted, and the fee that a compound mints is not held
against it. So the supply of a run stays below the ceiling exactly when every fee fits below it
(`supply_ceiling`), and a compound can take it past (`fee_past_ceiling`).
-/

namespace LstCore

open Lib

variable {deps : Deps} {env : Env} {info : MessageInfo} {st st' : Storage} {resp : Response}

/-- **The gate**: what a deposit leaves in supply is below the ceiling. -/
theorem acceptDeposit_gate {deposit shares : Uint128} {messages : List CosmosMsg}
    (h : acceptDeposit deps env info st = .ok (st', deposit, shares, messages)) :
    st'.totals.totalSupply.val ≤ maxTotalSupply := by
  unfold acceptDeposit at h
  rw [guard_eq_ok] at h
  simp only [bind_eq_ok, guard_eq_ok, Prod.exists, Config.boundToken, orErr_eq_ok,
    Word.add?_eq_some, not_lt] at h
  obtain ⟨-, token, -, d, -, -, st₁, pool, s, hprice, -, wm, hwm, hgate, set, validator, -, tb, -,
    ts, hts, h⟩ := h
  simp only [pure_eq_ok, Prod.mk.injEq] at h
  obtain ⟨rfl, rfl, rfl, rfl⟩ := h
  -- the pool counts the supply that has just been mirrored
  have hp := (pricingPool_eq_ok.1 (priceDeposit_eq_ok.1 hprice).1).2
  unfold poolTotals at hp
  simp only [bind_eq_ok, pure_eq_ok] at hp
  obtain ⟨_, -, _, -, rfl⟩ := hp
  simp only [add_eq_ok] at hts
  show ts.val ≤ _
  rw [hts]
  exact hwm ▸ hgate

theorem executeDeposit_answer (h : executeDeposit deps env info st = .ok (st', resp)) :
    ∃ deposit shares, resp.data = some (.deposit deposit shares) ∧
      mintedBy resp.messages = shares.val ∧ st'.totals.totalSupply.val ≤ maxTotalSupply := by
  unfold executeDeposit at h
  simp only [bind_eq_ok, Prod.exists, pure_eq_ok, Prod.mk.injEq] at h
  obtain ⟨st₁, deposit, shares, messages, ha, st₂, closing, hc, rfl, rfl⟩ := h
  have hgate := acceptDeposit_gate ha
  obtain ⟨d, rfl, rfl⟩ := acceptDeposit_ok ha
  obtain ⟨hsame, hmint, -⟩ := overdue_supply hc
  refine ⟨deposit, shares, rfl, ?_, hsame ▸ hgate⟩
  rw [mintedBy_append, hmint]
  simp [Deposited.messages, delegateMsg, CosmosMsg.minted]

/-- The calls that mint. -/
def ExecuteMsg.mints : ExecuteMsg → Bool
  | .bootstrap .. | .deposit | .compound _ => true
  | _ => false

/-- No other call does. -/
theorem mintedBy_eq_zero {msg : ExecuteMsg} (hB : Booked st) (hm : msg.mints = false)
    (h : execute deps env info msg st = .ok (st', resp)) : mintedBy resp.messages = 0 := by
  cases msg with
  | bootstrap => cases hm
  | deposit => cases hm
  | compound => cases hm
  | receive sender fromAddr amount hook =>
    obtain ⟨st₁, w, owed, token, closing, -, hc, hmsgs⟩ := executeReceive_ok h
    rw [hmsgs, mintedBy_cons, (overdue_supply hc).2.1]
    rfl
  | claimMatured windowIds =>
    obtain ⟨_, _, _, _, _, -, -, -, -, -, hmsgs⟩ := executeClaimMatured_ok hB h
    rw [hmsgs]
    rfl
  | advanceWindow =>
    obtain ⟨w, closing, hw, hopen, hdue, hc, hmsgs⟩ := executeAdvanceWindow_ok h
    rw [hmsgs, (closing_supply hw hopen hdue hc).2.1]
  | collectMatured limit =>
    obtain ⟨ids, -, hmsgs⟩ := executeCollectMatured_ok h
    rw [hmsgs]
    rfl
  | sync limit =>
    obtain ⟨s, -, hmsgs, -⟩ := executeSync_ok h
    rw [hmsgs]
    rfl
  | setPaused paused =>
    obtain ⟨-, hmsgs⟩ := executeSetPaused_ok h
    rw [hmsgs]
    rfl
  | manager m =>
    refine (noToken fun x hx => ?_).1
    obtain ⟨_, _, _, rfl⟩ := executeManager_messages h x hx
    rfl

theorem executeCompound_minted {limit : Option ℕ}
    (h : executeCompound deps env limit st = .ok (st', resp)) :
    ∃ harvested fee processed done, resp.data = some (.compound harvested fee processed done) ∧
      mintedBy resp.messages = fee.val := by
  obtain ⟨c, -, hm, hd⟩ := executeCompound_ok h
  refine ⟨_, _, _, _, hd, ?_⟩
  rw [hm, Compounded.messages, mintedBy_append, (withdrawals_supply _ _ _).1,
    (restake_supply c.restake_eq).1, Nat.zero_add]

theorem executeBootstrap_minted {addr hash : String}
    (h : executeBootstrap deps env info addr hash st = .ok (st', resp)) :
    st.config.token = none ∧
      ∃ seed, resp.data = some (.bootstrap seed seed) ∧ mintedBy resp.messages = seed.val := by
  obtain ⟨s, hd, -, hm⟩ := executeBootstrap_answer h
  refine ⟨(executeBootstrap_checked h).2, s.seed, hd, ?_⟩
  rw [hm]
  simp [Seeded.messages, delegateMsg, CosmosMsg.minted]

/-- The shares that an event burns. -/
def ChainEvent.burns : ChainEvent → ℕ
  | .send _ _ _ amount _ => amount.val
  | _ => 0

namespace Chain

variable {c c' c₁ : Chain} {e : ChainEvent × Option ExecuteAnswer}
  {h : List (ChainEvent × Option ExecuteAnswer)}

/-- The seed that an event brings. -/
def seedOf : ChainEvent × Option ExecuteAnswer → ℕ
  | (.call _ _ (.bootstrap _ _), some (.bootstrap seed _)) => seed.val
  | _ => 0

/-- The fee that an event mints. -/
def feeOf : ChainEvent × Option ExecuteAnswer → ℕ
  | (.call _ _ (.compound _), some (.compound _ fee _ _)) => fee.val
  | _ => 0

/-- A seed is below the ceiling. -/
def SeedFits (e : ChainEvent × Option ExecuteAnswer) : Prop := seedOf e ≤ maxTotalSupply

/-- A fee fits below the ceiling. -/
def FeeFits (c : Chain) (e : ChainEvent × Option ExecuteAnswer) : Prop :=
  c.store.totals.totalSupply.val + feeOf e ≤ maxTotalSupply

/-- The cached supply is below the ceiling. -/
def BelowCeiling (c : Chain) : Prop := c.store.totals.totalSupply.val ≤ maxTotalSupply

instance (e : ChainEvent × Option ExecuteAnswer) : Decidable (SeedFits e) :=
  inferInstanceAs (Decidable (_ ≤ _))

instance (c : Chain) (e : ChainEvent × Option ExecuteAnswer) : Decidable (FeeFits c e) :=
  inferInstanceAs (Decidable (_ ≤ _))

/-! ## Before the seed -/

/-- Where no token is bound, no message reaches one. -/
theorem runs_unbound : ∀ {messages : List CosmosMsg} {c c' : Chain},
    messages.foldlM run c = some c' → c.store.config.token = none →
    ∀ m ∈ messages, m.isToken = false := by
  intro messages
  induction messages with
  | nil => exact fun _ _ m hm => absurd hm List.not_mem_nil
  | cons m messages ih =>
    intro c c' h ht
    rw [List.foldlM_cons, Option.bind_eq_bind, Option.bind_eq_some_iff] at h
    obtain ⟨mid, hm, h⟩ := h
    refine List.forall_mem_cons.2 ⟨?_, ih h ((run_ok hm).store ▸ ht)⟩
    cases m with
    | token token msg =>
      simp only [run] at hm
      rw [if_neg (by rw [ht]; simp)] at hm
      cases hm
    | _ => rfl

/-- **Before a token is bound** there is no supply. -/
theorem Reaches.unbound (hR : c.Reaches) (ht : c.store.config.token = none) : c.supply.val = 0 := by
  refine hR.inv (P := fun c => c.store.config.token = none → c.supply.val = 0)
    (fun c hf _ => by rw [hf.2.1]; rfl) ?_ ht
  rintro c ⟨e, answer⟩ c' hR ih hn ht'
  rcases step_ok hn with ⟨c₁, view, info, msg, store, resp, hen, he, hr, -⟩ | ⟨-, ha⟩
  · have hran := runs_ok hr
    rw [hran.store] at ht'
    obtain ⟨hmint, -⟩ := noToken (runs_unbound hr ht')
    have hsup : c'.supply.val + burnedBy resp.messages = c₁.supply.val + mintedBy resp.messages :=
      hran.supply
    rw [hen.token.1] at hsup
    -- a token that is bound stays bound
    have hold : c.store.config.token = none := by
      have hB : Booked c₁.store := hen.store_eq ▸ hR.reachable.booked
      exact hen.store_eq ▸ (execute_config hB he).unbound ht'
    have := ih hold
    omega
  · cases ha with
    | transfer hne hm =>
      obtain ⟨hT, hs, -⟩ := move_ok hm
      rw [hs]
      exact ih (hT.store ▸ ht')
    | migrate hm =>
      obtain ⟨rfl, -⟩ := migrate_ok hm
      exact ih ht'
    | inflow | accrue | slash | time => exact ih ht'

/-! ## The ceiling -/

/-- **A call moves the supply** by what it mints and what it burns. -/
theorem Entered.supply_next {e : ChainEvent} {view : Deps} {info : MessageInfo} {msg : ExecuteMsg}
    {store : Storage} {resp : Response} (hR : c.Reaches) (hen : Entered c e c₁ view info msg)
    (he : execute (c₁.deps view) c₁.env info msg c₁.store = .ok (store, resp))
    (hr : resp.messages.foldlM run { c₁ with store := store } = some c') :
    store.totals.totalSupply.val + msg.burns =
      c.store.totals.totalSupply.val + mintedBy resp.messages := by
  have hM := hR.mirror
  have hM₁ := hen.mirror hM
  have hB : Booked c₁.store := hen.store_eq ▸ hR.reachable.booked
  obtain ⟨hsup, hburn⟩ := execute_supply hB (hM₁.supply ▸ mirrorSupply_eq hM₁.supply view) he
  have hran : c'.supply.val + burnedBy resp.messages = c₁.supply.val + mintedBy resp.messages :=
    (runs_ok hr).supply
  have h1 := congrArg Word.val hM₁.supply
  rw [hen.store_eq] at h1 hsup
  omega

/-- The token alone makes the contract burn. -/
theorem Entered.burns_eq {e : ChainEvent} {view : Deps} {info : MessageInfo} {msg : ExecuteMsg}
    {store : Storage} {resp : Response} (hen : Entered c e c₁ view info msg)
    (he : execute (c₁.deps view) c₁.env info msg c₁.store = .ok (store, resp)) :
    msg.burns = e.burns := by
  cases hen with
  | call hs hb =>
    cases msg with
    | receive sender fromAddr amount hook =>
      exact absurd (receive_isContract he) hs
    | _ => rfl
  | send => rfl

/-- What is not a call leaves the mirror alone. -/
theorem Aside.supply_next {e : ChainEvent} (h : Aside c e c') :
    c'.store.totals.totalSupply = c.store.totals.totalSupply ∧ e.burns = 0 := by
  cases h with
  | transfer hne hm => exact ⟨by rw [(move_ok hm).1.store], rfl⟩
  | migrate hm =>
    obtain ⟨rfl, -⟩ := migrate_ok hm
    exact ⟨rfl, rfl⟩
  | inflow | accrue | slash | time => exact ⟨rfl, rfl⟩

/-- No event but a compound has a fee. -/
theorem Entered.feeOf_eq {e : ChainEvent} {view : Deps} {info : MessageInfo} {msg : ExecuteMsg}
    {answer : Option ExecuteAnswer} (hen : Entered c e c₁ view info msg)
    (hm : ∀ limit, msg ≠ .compound limit) : feeOf (e, answer) = 0 := by
  cases hen with
  | call =>
    cases msg with
    | compound limit => exact absurd rfl (hm limit)
    | _ => rfl
  | send => rfl

/-- **Below the ceiling, an event stays there** exactly if its fee fits. -/
theorem feeFits_iff (hR : c.Reaches) (hle : BelowCeiling c) (hn : Next c e c') (hs : SeedFits e) :
    FeeFits c e ↔ BelowCeiling c' := by
  obtain ⟨e, answer⟩ := e
  unfold BelowCeiling at hle
  rcases step_ok hn with ⟨c₁, view, info, msg, store, resp, hen, he, hr, rfl⟩ | ⟨rfl, ha⟩
  · have hnext := hen.supply_next hR he hr
    have hB : Booked c₁.store := hen.store_eq ▸ hR.reachable.booked
    rw [BelowCeiling, (runs_ok hr).store, FeeFits]
    show _ ↔ store.totals.totalSupply.val ≤ _
    cases hm : msg.mints with
    | false =>
      rw [mintedBy_eq_zero hB hm he] at hnext
      rw [hen.feeOf_eq fun limit hl => by rw [hl] at hm; cases hm]
      exact iff_of_true hle (by omega)
    | true =>
      cases msg with
      | bootstrap addr hash =>
        rw [hen.feeOf_eq fun limit hl => by cases hl]
        refine iff_of_true hle ?_
        -- the seed is the first to be minted
        obtain ⟨htoken, seed, hd, hmint⟩ := executeBootstrap_minted he
        have hzero := hR.unbound (hen.store_eq ▸ htoken)
        have hsup := congrArg Word.val hR.mirror.supply
        have hfits : seed.val ≤ maxTotalSupply := by
          cases hen with
          | call =>
            rw [SeedFits, hd] at hs
            exact hs
        simp only [ExecuteMsg.burns] at hnext
        omega
      | deposit =>
        rw [hen.feeOf_eq fun limit hl => by cases hl]
        obtain ⟨_, _, -, -, hgate⟩ := executeDeposit_answer he
        exact iff_of_true hle hgate
      | compound limit =>
        obtain ⟨harvested, fee, processed, done, hd, hmint⟩ := executeCompound_minted he
        have hfee : feeOf (e, resp.data) = fee.val := by
          cases hen with
          | call =>
            rw [hd]
            rfl
        rw [hmint] at hnext
        simp only [ExecuteMsg.burns, Nat.add_zero] at hnext
        rw [hfee, hnext]
      | _ => cases hm
  · rw [BelowCeiling, ha.supply_next.1]
    refine iff_of_true ?_ hle
    cases ha <;> exact hle

/-- **The ceiling on the supply.** A run from a fresh contract whose seed is below the ceiling
stays below it exactly when every fee that its compounds mint fits below it; a deposit always
leaves the supply below it; and the supply falls only when shares are sent back, by as many as are
burned. -/
theorem supply_ceiling :
    (∀ c₀ : Chain, c₀.Fresh →
      (Run (Guarded (fun c e c' => Next c e c' ∧ SeedFits e) FeeFits) c₀ h c ↔
        Run (fun c e c' => (Next c e c' ∧ SeedFits e) ∧ BelowCeiling c') c₀ h c)) ∧
    ∀ c e c', c.Reaches → Next c e c' →
      (∀ view info, e.1 = .call view info .deposit → BelowCeiling c') ∧
      (c'.store.totals.totalSupply.val < c.store.totals.totalSupply.val →
        c.store.totals.totalSupply.val = c'.store.totals.totalSupply.val + e.1.burns) := by
  refine ⟨fun c₀ hf => ?_, fun c ⟨e, answer⟩ c' hR hn => ?_⟩
  · refine Run.guarded_iff (I := fun c => c.Reaches ∧ BelowCeiling c) ⟨⟨c₀, [], hf, .nil⟩, ?_⟩ ?_ ?_
    · rw [BelowCeiling, hf.mirror.supply, hf.2.1]
      exact Nat.zero_le _
    · exact fun c e c' hI hn hP => ⟨hI.1.next hn.1, hP⟩
    · exact fun c e c' hI hn => feeFits_iff hI.1 hI.2 hn.1 hn.2
  · rcases step_ok hn with ⟨c₁, view, info, msg, store, resp, hen, he, hr, rfl⟩ | ⟨rfl, ha⟩
    · have hnext := hen.supply_next hR he hr
      have hB : Booked c₁.store := hen.store_eq ▸ hR.reachable.booked
      have hburns := hen.burns_eq he
      rw [BelowCeiling, (runs_ok hr).store]
      constructor
      · rintro view' info' (heq : e = _)
        subst heq
        cases hen with
        | call =>
          obtain ⟨_, _, -, -, hgate⟩ := executeDeposit_answer he
          exact hgate
      · intro hlt
        have hlt : store.totals.totalSupply.val < c.store.totals.totalSupply.val := hlt
        show _ = store.totals.totalSupply.val + e.burns
        -- what burns mints nothing
        have hmint : mintedBy resp.messages = 0 := by
          cases hm : msg.mints with
          | false => exact mintedBy_eq_zero hB hm he
          | true =>
            have hz : msg.burns = 0 := by
              cases msg with
              | receive => cases hm
              | _ => rfl
            omega
        omega
    · obtain ⟨hsame, -⟩ := ha.supply_next
      rw [BelowCeiling, hsame]
      refine ⟨fun view info heq => ?_, fun hlt => absurd hlt (Nat.lt_irrefl _)⟩
      have heq : e = _ := heq
      subst heq
      cases ha

set_option maxRecDepth 10000 in
/-- The seed, a deposit, and a compound that mints a fee of some 4.36 shares for 100 SCRT of
rewards. -/
theorem supply_ceiling_kept : ∃ (c : Chain) (h : List (ChainEvent × Option ExecuteAnswer)),
    c.store.totals.totalSupply.val = 114356435 ∧
    Run (fun c e c' => (Next c e c' ∧ SeedFits e) ∧ BelowCeiling c') devChain h c := by
  have hrun : (devChain.replayIf (fun c e => SeedFits e ∧ FeeFits c e) [devSeed, devEnter "user" (Uint128.new 100000000) .deposit,
      .accrue "validatortwo" (Uint128.new 100000000), devEnter "keeper" 0 (.compound none)]).map
      (·.1.store.totals.totalSupply.val) = some 114356435 := by decide +kernel
  obtain ⟨⟨c, h⟩, hc, hsup⟩ := Option.map_eq_some_iff.1 hrun
  exact ⟨c, h, hsup, (supply_ceiling.1 devChain devChain_fresh).1
    ((replayIf_ok hc).mono fun _ _ _ hn => ⟨⟨hn.1, hn.2.1⟩, hn.2.2⟩)⟩

set_option maxRecDepth 10000 in
/-- A seed of the whole ceiling, and then the fee of one compound on 100 SCRT of rewards. -/
theorem fee_past_ceiling : ¬ ∀ (c₀ c : Chain) (h : List (ChainEvent × Option ExecuteAnswer)),
    c₀.Fresh → Run (fun c e c' => Next c e c' ∧ SeedFits e) c₀ h c → BelowCeiling c := by
  intro hclaim
  have hrun : (devChain.replay [devEnter "deployer" (Uint128.new 100000000000)
        (.bootstrap "token" "tokenhash"), .accrue "validatorone" (Uint128.new 100000000),
        devEnter "keeper" 0 (.compound none)]).map
      (fun r => (r.1.store.totals.totalSupply.val, decide (∀ e ∈ r.2, SeedFits e))) =
      some (100007992646, true) := by decide +kernel
  obtain ⟨⟨c, h⟩, hr, hs⟩ := Option.map_eq_some_iff.1 hrun
  rw [Prod.mk.injEq, decide_eq_true_eq] at hs
  have hbelow := hclaim devChain c h devChain_fresh
    ((replay_ok hr).mono_of_mem fun _ e _ he hn => ⟨hn, hs.2 e he⟩)
  rw [BelowCeiling, hs.1] at hbelow
  exact absurd hbelow (by decide)

end Chain

end LstCore
