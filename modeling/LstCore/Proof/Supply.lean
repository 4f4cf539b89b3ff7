import LstCore.Proof.Config
import LstCore.Proof.Money
import LstCore.Proof.Staking

/-!
# The mirrored supply

* `execute_supply`: a call on a mirror that is right leaves it right once its messages have run.
* `Chain.Reaches.mirror`: between events the mirror is right, and the accounts hold the supply.
* `Chain.own_le`, `Chain.Reaches.seeded`: what the contract holds of its token never falls, and from
  the binding of a token on it holds the seed.
-/

namespace LstCore

open Lib

variable {deps : Deps} {env : Env} {info : MessageInfo} {st st' : Storage} {resp : Response}
  {messages : List CosmosMsg}

/-! ## Mints and burns -/

/-- What the messages mint. -/
def mintedBy (messages : List CosmosMsg) : ℕ := (messages.map (·.minted)).sum

/-- What they burn. -/
def burnedBy (messages : List CosmosMsg) : ℕ := (messages.map (·.burned)).sum

@[simp] theorem mintedBy_nil : mintedBy [] = 0 := rfl

@[simp] theorem burnedBy_nil : burnedBy [] = 0 := rfl

@[simp] theorem mintedBy_cons (m : CosmosMsg) : mintedBy (m :: messages) = m.minted + mintedBy messages :=
  List.sum_cons

@[simp] theorem burnedBy_cons (m : CosmosMsg) : burnedBy (m :: messages) = m.burned + burnedBy messages :=
  List.sum_cons

@[simp] theorem mintedBy_append (l : List CosmosMsg) :
    mintedBy (messages ++ l) = mintedBy messages + mintedBy l := by
  simp [mintedBy]

@[simp] theorem burnedBy_append (l : List CosmosMsg) :
    burnedBy (messages ++ l) = burnedBy messages + burnedBy l := by
  simp [burnedBy]

/-- No message to the token. -/
def CosmosMsg.isToken : CosmosMsg → Bool
  | .token .. => true
  | _ => false

theorem noToken (h : ∀ m ∈ messages, m.isToken = false) :
    mintedBy messages = 0 ∧ burnedBy messages = 0 := by
  induction messages with
  | nil => exact ⟨rfl, rfl⟩
  | cons m messages ih =>
    obtain ⟨hm, hb⟩ := ih fun n hn => h n (List.mem_cons_of_mem _ hn)
    have := h m List.mem_cons_self
    rw [mintedBy_cons, burnedBy_cons, hm, hb]
    cases m <;> simp_all [CosmosMsg.isToken, CosmosMsg.minted, CosmosMsg.burned]

/-- Closing leaves the mirror alone, and the token. -/
theorem Undelegated.supply {w : UnbondWindow} {vs : List ValidatorEntry} {ts : TotalsCache}
    {used : List String} (h : Undelegated st w vs ts used messages) :
    ts.totalSupply = st.totals.totalSupply ∧ mintedBy messages = 0 ∧ burnedBy messages = 0 := by
  refine ⟨?_, noToken fun m hm => ?_⟩
  · cases h with
    | nothing => rfl
    | issued => rfl
  · obtain ⟨_, _, rfl⟩ := h.messages_mem m hm
    rfl

theorem closing_supply {closing : Closing} {w : UnbondWindow}
    (hw : st.windows.lookup st.openWindow = some w) (hopen : w.state = .open)
    (hdue : w.closesAt ≤ env.time) (h : closeOpenWindow env st = .ok (st', closing)) :
    st'.totals.totalSupply = st.totals.totalSupply ∧ mintedBy closing.messages = 0 ∧
      burnedBy closing.messages = 0 := by
  obtain ⟨used, hund, -⟩ := closeOpenWindow_ok hw hopen hdue h
  exact hund.supply

theorem overdue_supply {closing : List CosmosMsg}
    (h : closeWindowIfOverdue env st = .ok (st', closing)) :
    st'.totals.totalSupply = st.totals.totalSupply ∧ mintedBy closing = 0 ∧ burnedBy closing = 0 := by
  rcases closeWindowIfOverdue_ok h with ⟨rfl, rfl⟩ | ⟨w, closing, hw, hopen, hdue, hc, rfl⟩
  · exact ⟨rfl, rfl, rfl⟩
  · exact closing_supply hw hopen hdue hc

/-- A page of withdrawals says nothing to the token. -/
theorem withdrawals_supply (contract : Addr) (denom : String) (page : List ValidatorEntry) :
    mintedBy (withdrawals deps contract denom page) = 0 ∧
      burnedBy (withdrawals deps contract denom page) = 0 := by
  refine noToken fun m hm => ?_
  obtain ⟨v, -, rfl⟩ := List.mem_map.1 hm
  rfl

/-- Restaking mints the fee. -/
theorem restake_supply {pool : PoolTotals} {set set' : List ValidatorEntry} {harvested fee : Uint128}
    (h : restake st pool set harvested = .ok (set', messages, fee)) :
    mintedBy messages = fee.val ∧ burnedBy messages = 0 := by
  rcases restake_ok h with ⟨-, -, rfl, rfl⟩ | ⟨-, before, validator, feeMsgs, -, -, -, hf, rfl⟩
  · exact ⟨rfl, rfl⟩
  · unfold feeMessages at hf
    split at hf
    · rename_i hz
      cases hf
      rw [hz]
      exact ⟨rfl, rfl⟩
    · simp only [bind_eq_ok, pure_eq_ok] at hf
      obtain ⟨token, -, rfl⟩ := hf
      simp [delegateMsg, CosmosMsg.minted, CosmosMsg.burned]

theorem refreshTotals_supply {st₁ : Storage} (h : refreshTotals deps env st = .ok st₁) :
    mirrorSupply deps st = .ok st₁.totals.totalSupply := by
  obtain ⟨-, -, tb, pr, ts, -, -, hts, rfl⟩ := refreshTotals_eq_ok.1 h
  exact hts

/-- The shares that a call burns. -/
def ExecuteMsg.burns : ExecuteMsg → ℕ
  | .receive _ _ amount _ => amount.val
  | _ => 0

/-- **A call on a mirror that is right** moves it by what its messages mint and burn. -/
theorem execute_supply {msg : ExecuteMsg} (hB : Booked st)
    (hs : mirrorSupply deps st = .ok st.totals.totalSupply)
    (h : execute deps env info msg st = .ok (st', resp)) :
    st'.totals.totalSupply.val = st.totals.totalSupply.val + mintedBy resp.messages - msg.burns ∧
      burnedBy resp.messages = msg.burns := by
  cases msg with
  | bootstrap tokenAddress tokenCodeHash =>
    obtain ⟨s, rfl, hm⟩ := executeBootstrap_ok h
    rw [hm]
    simp [Seeded.next, Seeded.messages, delegateMsg, CosmosMsg.minted, CosmosMsg.burned, s.supply_val,
      ExecuteMsg.burns]
  | deposit =>
    obtain ⟨st₁, deposit, shares, messages, closing, ha, hc, hm⟩ := executeDeposit_ok h
    obtain ⟨d, rfl, rfl⟩ := acceptDeposit_ok ha
    obtain ⟨hsame, hmint, hburn⟩ := overdue_supply hc
    have hmirror := refreshTotals_supply d.refreshed
    rw [hs, Except.ok.injEq] at hmirror
    rw [hm, hsame, mintedBy_append, burnedBy_append, hmint, hburn]
    simp [Deposited.next, Deposited.messages, delegateMsg, CosmosMsg.minted, CosmosMsg.burned,
      d.supply_val, ← hmirror, ExecuteMsg.burns]
  | receive sender fromAddr amount hook =>
    obtain ⟨st₁, w, owed, token, closing, ha, hc, hm⟩ := executeReceive_ok h
    obtain ⟨st₂, -, -, -, -, hprice, hj⟩ := requestWithdrawal_ok ha
    obtain ⟨pool, hpool, -⟩ := priceWithdrawal_eq_ok.1 hprice
    have hmirror := refreshTotals_supply (pricingPool_eq_ok.1 hpool).1
    rw [hs, Except.ok.injEq] at hmirror
    obtain ⟨u, oo, -, -, -, hst₁⟩ := joinWindow_ok hj
    obtain ⟨hsame, hmint, hburn⟩ := overdue_supply hc
    rw [hm, hsame, hst₁, mintedBy_cons, burnedBy_cons, hmint, hburn]
    simp [CosmosMsg.minted, CosmosMsg.burned, ← hmirror, ExecuteMsg.burns]
  | claimMatured windowIds =>
    obtain ⟨balance, rets, st₁, paid, hist, -, hM, -, hP, -, hm⟩ := executeClaimMatured_ok hB h
    rw [hm, hP.frame, hM.frame]
    exact ⟨rfl, rfl⟩
  | advanceWindow =>
    obtain ⟨w, closing, hw, hopen, hdue, hc, hm⟩ := executeAdvanceWindow_ok h
    obtain ⟨hsame, hmint, hburn⟩ := closing_supply hw hopen hdue hc
    rw [hm, hsame, hmint, hburn]
    exact ⟨rfl, rfl⟩
  | collectMatured limit =>
    obtain ⟨ids, hmat, hm⟩ := executeCollectMatured_ok h
    obtain ⟨_, _, -, hM, -⟩ := matureDueWindows_ok hB hmat
    rw [hm, hM.frame]
    exact ⟨rfl, rfl⟩
  | compound limit =>
    obtain ⟨c, rfl, hm, -⟩ := executeCompound_ok h
    obtain ⟨hmint, hburn⟩ := @withdrawals_supply deps env.contract.address st.config.bondedDenom
      (pageOf st.syncCursor c.stop st.validators)
    obtain ⟨hmint', hburn'⟩ := restake_supply c.restake_eq
    rw [hm, Compounded.messages, mintedBy_append, burnedBy_append, hmint, hburn, hmint', hburn',
      Nat.zero_add]
    exact ⟨c.supply_val, rfl⟩
  | sync limit =>
    obtain ⟨s, rfl, hm, -⟩ := executeSync_ok h
    rw [hm]
    have hsup := s.supply_eq
    split at hsup
    · rw [hs, Except.ok.injEq] at hsup
      exact ⟨congrArg Word.val hsup.symm, rfl⟩
    · exact ⟨congrArg Word.val hsup, rfl⟩
  | setPaused paused =>
    obtain ⟨rfl, hm⟩ := executeSetPaused_ok h
    rw [hm]
    exact ⟨rfl, rfl⟩
  | manager m =>
    obtain ⟨hmint, hburn⟩ := noToken fun x hx => by
      obtain ⟨_, _, _, rfl⟩ := executeManager_messages h x hx
      rfl
    rw [hmint, hburn]
    refine ⟨?_, rfl⟩
    rcases executeManager_ok h with ⟨_, -, -, rfl, -⟩ | ⟨_, -, -, rfl, -⟩ | ⟨_, _, -, -, rfl, -⟩ <;> rfl

/-- What seeding the pool answers: the seed, which the shares of it match. -/
theorem executeBootstrap_answer {addr hash : String}
    (h : executeBootstrap deps env info addr hash st = .ok (st', resp)) :
    ∃ s : Seeded info st, resp.data = some (.bootstrap s.seed s.seed) ∧
      minBootstrapSeed ≤ s.seed.val ∧ resp.messages = s.messages hash env.contract := by
  unfold executeBootstrap at h
  simp only [bind_eq_ok, guard_eq_ok, Prod.exists, add_eq_ok] at h
  obtain ⟨-, -, seed, hseed, hmin, address, -, set, validator, hplace, tb, htb, ts, hts, h⟩ := h
  simp only [pure_eq_ok, Prod.mk.injEq] at h
  obtain ⟨rfl, rfl⟩ := h
  exact ⟨⟨seed, address, set, validator, tb, ts, hseed, hplace, htb, hts⟩, rfl, not_lt.1 hmin, rfl⟩

/-! ## Between events -/

namespace Chain

variable {c c' c₁ : Chain} {e : ChainEvent × Option ExecuteAnswer}

/-- **The mirror is right**, and the accounts hold the whole supply. -/
structure Mirror (c : Chain) : Prop where
  supply : c.store.totals.totalSupply = c.supply
  shares : c.shareTotal = c.supply.val

/-- Where the mirror is right, it is what the token answers. -/
theorem mirrorSupply_eq (h : c.store.totals.totalSupply = c.supply) (view : Deps) :
    mirrorSupply (c.deps view) c.store = .ok c.supply := by
  unfold mirrorSupply
  split
  · rename_i token ht
    have hq : (c.deps view).queryTokenInfo token = .ok (some c.supply) := if_pos ht
    rw [queryTotalSupply, hq]
    rfl
  · rw [h]
    rfl

/-- Nothing about the token changes before a call is made, but a transfer to the contract. -/
theorem Entered.token {ev : ChainEvent} {view : Deps} {info : MessageInfo} {msg : ExecuteMsg}
    (h : Entered c ev c₁ view info msg) : c₁.supply = c.supply ∧ c₁.shareTotal = c.shareTotal ∧
      c₁.self = c.self ∧ (c.sharesOf c.self.address).val ≤ (c₁.sharesOf c.self.address).val := by
  cases h with
  | call => exact ⟨rfl, rfl, rfl, Nat.le_refl _⟩
  | send hne ht hm =>
    obtain ⟨hT, hs, htotal, hu⟩ := move_ok hm
    have := hu c.self.address
    rw [if_neg hne, if_pos rfl] at this
    exact ⟨hs, htotal, hT.self, by omega⟩

theorem Entered.mirror {ev : ChainEvent} {view : Deps} {info : MessageInfo} {msg : ExecuteMsg}
    (h : Entered c ev c₁ view info msg) (hM : Mirror c) : Mirror c₁ where
  supply := by rw [h.store_eq, h.token.1, hM.supply]
  shares := by rw [h.token.2.1, h.token.1, hM.shares]

theorem Mirror.next (h : Mirror c) (hR : c.Reaches) (hn : Next c e c') : Mirror c' := by
  obtain ⟨e, answer⟩ := e
  rcases step_ok hn with ⟨c₁, view, info, msg, store, resp, hen, he, hr, -⟩ | ⟨-, ha⟩
  · have hM := hen.mirror h
    have hran := runs_ok hr
    have hB : Booked c₁.store := hen.store_eq ▸ hR.reachable.booked
    obtain ⟨hsup, hburn⟩ := execute_supply hB (hM.supply ▸ mirrorSupply_eq hM.supply view) he
    have h1 : c'.supply.val + burnedBy resp.messages = c₁.supply.val + mintedBy resp.messages :=
      hran.supply
    have h2 : c'.shareTotal + burnedBy resp.messages = c₁.shareTotal + mintedBy resp.messages :=
      hran.shareTotal
    have h3 := hM.shares
    have h4 := congrArg Word.val hM.supply
    refine ⟨Word.ext ?_, by omega⟩
    rw [hran.store]
    show store.totals.totalSupply.val = _
    omega
  · cases ha with
    | transfer hne hm =>
      obtain ⟨hT, hs, htotal, -⟩ := move_ok hm
      exact ⟨by rw [hT.store, hs, h.supply], by rw [htotal, hs, h.shares]⟩
    | migrate hm =>
      obtain ⟨rfl, -⟩ := migrate_ok hm
      exact ⟨h.supply, h.shares⟩
    | inflow | accrue | slash | time => exact ⟨h.supply, h.shares⟩

theorem Fresh.mirror (h : c.Fresh) : Mirror c := by
  obtain ⟨-, hsupply, hshares, view, info, msg, resp, hi⟩ := h
  obtain ⟨config, -, -, -, -, -, hst⟩ := instantiate_ok hi
  constructor
  · rw [hst, hsupply]
    rfl
  · rw [shareTotal, hshares, hsupply]
    rfl

/-- **The mirror is right on every chain**, between the events. -/
theorem Reaches.mirror (h : c.Reaches) : Mirror c :=
  h.inv (fun _ hf => hf.mirror) fun _ _ _ hR hM hn => hM.next hR hn

/-! ## The seed -/

variable {view : Deps} {info : MessageInfo} {msg : ExecuteMsg}

/-- What the contract holds of its own token. -/
def own (c : Chain) : ℕ := (c.sharesOf c.self.address).val

/-- Nobody but the token is let in with a hook. -/
theorem receive_isContract {info : MessageInfo} {fromAddr : String} {amount : Uint128}
    {hook : Option Binary} {store : Storage} {resp : Response}
    (h : executeReceive (c.deps view) c.env info fromAddr amount hook c.store = .ok (store, resp)) :
    c.IsContract info.sender := by
  obtain ⟨st₁, w, owed, token, closing, ha, -⟩ := executeReceive_ok h
  obtain ⟨_, ht, hsender, -⟩ := requestWithdrawal_ok ha
  exact .inr ⟨token, ht, hsender⟩

/-- A call finds the shares it burns with the contract, on top of its own. -/
theorem Entered.own_add {e : ChainEvent} (h : Entered c e c₁ view info msg) {store : Storage}
    {resp : Response} (he : execute (c₁.deps view) c₁.env info msg c₁.store = .ok (store, resp)) :
    c.own + msg.burns ≤ c₁.own := by
  cases h with
  | call hs hb =>
    cases msg with
    | receive sender fromAddr amount hook =>
      exact absurd (receive_isContract he) hs
    | _ => exact Nat.le_refl _
  | send hne ht hm =>
    obtain ⟨hT, -, -, hu⟩ := move_ok hm
    have := hu c.self.address
    rw [if_neg hne, if_pos rfl] at this
    rw [own, own, hT.self]
    exact this.symm.le

/-- **What the contract holds of its token never falls.** -/
theorem own_le {e : ChainEvent × Option ExecuteAnswer} (hR : c.Reaches) (hn : Next c e c') :
    c.own ≤ c'.own := by
  obtain ⟨e, answer⟩ := e
  rcases step_ok hn with ⟨c₁, view, info, msg, store, resp, hen, he, hr, -⟩ | ⟨-, ha⟩
  · have hM := hen.mirror hR.mirror
    have hran := runs_ok hr
    have hB : Booked c₁.store := hen.store_eq ▸ hR.reachable.booked
    obtain ⟨-, hburn⟩ := execute_supply hB (hM.supply ▸ mirrorSupply_eq hM.supply view) he
    have hown := hen.own_add he
    have hu := hran.sharesOf c₁.self.address
    rw [if_pos rfl, show (resp.messages.map (·.burned)).sum = msg.burns from hburn] at hu
    have hu' : c'.own + msg.burns =
        c₁.own + (resp.messages.map (·.mintedTo c₁.self.address)).sum := by
      rw [own, hran.self]
      exact hu
    omega
  · cases ha with
    | transfer hne hm =>
      obtain ⟨hT, -, -, hu⟩ := move_ok hm
      have := hu c.self.address
      rw [if_neg hne] at this
      rw [own, own, hT.self]
      omega
    | migrate | inflow | accrue | slash | time => exact Nat.le_refl _

/-- **The seed.** The contract holds it once the pool has been seeded. -/
theorem seed_le {addr hash : String} {answer : Option ExecuteAnswer}
    (hn : Next c (.call view info (.bootstrap addr hash), answer) c') :
    ∃ seed : Uint128, answer = some (.bootstrap seed seed) ∧ minBootstrapSeed ≤ seed.val ∧
      seed.val ≤ c'.own := by
  rcases step_ok hn with ⟨c₁, _, _, _, store, resp, hen, he, hr, rfl⟩ | ⟨-, ha⟩
  · cases hen with
    | call hs hb =>
      obtain ⟨s, hd, hmin, hm⟩ := executeBootstrap_answer he
      refine ⟨s.seed, hd, hmin, ?_⟩
      have hran := runs_ok hr
      have hu := hran.sharesOf c.self.address
      rw [hm] at hu
      simp only [Seeded.messages, delegateMsg, List.map_cons, List.map_nil, List.sum_cons,
        List.sum_nil, CosmosMsg.mintedTo, CosmosMsg.burned, env, if_true] at hu
      have hself : c'.self = c.self := hran.self
      rw [own, hself]
      omega
  · cases ha

/-- A token that is bound stays bound. -/
theorem Next.bound {e : ChainEvent × Option ExecuteAnswer} (hR : c.Reaches) (hn : Next c e c')
    (ht : c.store.config.token ≠ none) : c'.store.config.token ≠ none := by
  obtain ⟨e, answer⟩ := e
  rcases step_ok hn with ⟨c₁, view, info, msg, store, resp, hen, he, hr, -⟩ | ⟨-, ha⟩
  · have hB : Booked c₁.store := hen.store_eq ▸ hR.reachable.booked
    intro hnone
    rw [(runs_ok hr).store] at hnone
    exact ht (hen.store_eq ▸ (execute_config hB he).unbound hnone)
  · cases ha with
    | transfer hne hm => rwa [(move_ok hm).1.store]
    | migrate hm =>
      obtain ⟨rfl, -⟩ := migrate_ok hm
      exact ht
    | inflow | accrue | slash | time => exact ht

/-- **With a token there is a seed**, and the contract holds it. -/
theorem Reaches.seeded (h : c.Reaches) (ht : c.store.config.token ≠ none) :
    minBootstrapSeed ≤ c.own := by
  refine h.inv (P := fun c => c.store.config.token ≠ none → minBootstrapSeed ≤ c.own)
    (fun c hf hne => ?_) ?_ ht
  · obtain ⟨-, -, -, view, info, msg, resp, hi⟩ := hf
    obtain ⟨config, -, -, -, -, hcfg, hst⟩ := instantiate_ok hi
    exact absurd (by rw [hst]; exact hcfg) hne
  rintro c ⟨e, answer⟩ c' hR ih hn hne
  by_cases hold : c.store.config.token = none
  · -- the token has just been bound
    rcases step_ok hn with ⟨c₁, view, info, msg, store, resp, hen, he, hr, -⟩ | ⟨-, ha⟩
    · rw [(runs_ok hr).store] at hne
      have hcfg := execute_config (hen.store_eq ▸ hR.reachable.booked) he
      rw [hen.store_eq] at hcfg
      obtain ⟨addr, hash, rfl⟩ := hcfg.binds hold hne
      cases hen with
      | call =>
        obtain ⟨seed, -, hmin, hle⟩ := seed_le hn
        exact hmin.trans hle
    · cases ha with
      | transfer hne' hm => exact absurd ((move_ok hm).1.store ▸ hold) hne
      | migrate hm =>
        obtain ⟨rfl, -⟩ := migrate_ok hm
        exact absurd hold hne
      | inflow | accrue | slash | time => exact absurd hold hne
  · exact (ih hold).trans (own_le hR hn)

end Chain

end LstCore
