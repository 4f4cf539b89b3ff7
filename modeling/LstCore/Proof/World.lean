import LstCore.Proof.Slots

/-!
# Worlds

* `tx_ok`, `credit_ok`: a transaction and a credit, inverted.
* `step_other`: the other events leave the queue alone.
* `Along.inv`: what a fresh world has and every step keeps holds along every history.
* `Reaches.reachable`: the contract's storage in a world is reachable.

At the end, a deployment as the contract's tests set it up, for concrete runs.
-/

namespace LstCore

open Lib

namespace World

variable {w w' : World} {t : Tx} {id : ℕ} {amount : Uint128} {e : Event}

/-! ## Events, inverted -/

theorem funded_eq_some {info : MessageInfo} {b : Uint128} : w.funded info = some b ↔
    b.val = w.balance.val + amountIn w.store.config.bondedDenom info.funds := by
  unfold funded
  simp only [Option.bind_eq_bind, Option.bind_eq_some_iff, Word.ofNat?_eq_some, Word.add?_eq_some]
  constructor
  · rintro ⟨f, hf, hb⟩; omega
  · intro hb
    have := b.isLt
    exact ⟨⟨amountIn w.store.config.bondedDenom info.funds, by omega⟩, rfl, hb⟩

theorem call_eq_some {b : Uint128} {store : Storage} {resp : Response} :
    w.call t = some (b, store, resp) ↔ w.funded t.info = some b ∧
      execute (w.deps t.view b) w.env t.info t.msg w.store = .ok (store, resp) := by
  unfold call
  simp only [Option.bind_eq_bind, Option.bind_eq_some_iff]
  constructor
  · rintro ⟨b', hb, h⟩
    split at h
    · rename_i store' resp' he
      simp only [Option.pure_def, Option.some.injEq, Prod.mk.injEq] at h
      obtain ⟨rfl, rfl, rfl⟩ := h
      exact ⟨hb, he⟩
    · simp at h
  · rintro ⟨hb, he⟩
    exact ⟨b, hb, by rw [he]; rfl⟩

/-- **A transaction, inverted**: the call succeeds on the funded balance, and its messages run. -/
theorem tx_ok (h : w.tx t = some w') : ∃ b store resp till,
    w.funded t.info = some b ∧
    execute (w.deps t.view b) w.env t.info t.msg w.store = .ok (store, resp) ∧
    w.runMessages t.view b resp.messages = some till ∧
    w' = { w with store := store, balance := till.balance, returns := w.fileReturn resp.messages } := by
  unfold tx at h
  simp only [Option.bind_eq_bind, Option.bind_eq_some_iff, Prod.exists, Option.pure_def,
    Option.some.injEq] at h
  obtain ⟨b, store, resp, hc, till, ht, rfl⟩ := h
  obtain ⟨hb, he⟩ := call_eq_some.1 hc
  exact ⟨b, store, resp, till, hb, he, ht, rfl⟩

/-- The bank answers a transaction with the contract's balance. -/
theorem deps_balance (w : World) (view : Deps) (b : Uint128) :
    (w.deps view b).queryBalance w.env.contract.address w.store.config.bondedDenom = .ok b := by
  simp [deps, env]

/-- **A credit, inverted.** -/
theorem credit_ok (h : w.credit id amount = some w') : ∃ r b, w.returns.lookup id = some r ∧
    r.credited = none ∧ amount.val ≤ r.amount ∧ b.val = w.balance.val + amount.val ∧
    w' = { w with balance := b, returns := w.returns.insert id { r with credited := some amount } } := by
  unfold credit at h
  simp only [Option.bind_eq_bind, Option.bind_eq_some_iff] at h
  obtain ⟨r, hr, h⟩ := h
  split at h
  · rename_i hc
    simp only [Option.bind_eq_some_iff, Word.add?_eq_some, Option.pure_def, Option.some.injEq] at h
    obtain ⟨b, hb, rfl⟩ := h
    exact ⟨r, b, hr, hc.1, hc.2, hb, rfl⟩
  · simp at h

theorem migrate_step (h : w.step .migrate = some w') :
    ∃ resp, LstCore.migrate w.store = .ok (w'.store, resp) ∧ w' = { w with store := w'.store } := by
  unfold step at h
  dsimp only at h
  split at h
  · rename_i store resp hm
    simp only [Option.some.injEq] at h
    subst h
    exact ⟨resp, hm, rfl⟩
  · simp at h

theorem inflow_step (h : w.step (.inflow amount) = some w') :
    ∃ b : Uint128, b.val = w.balance.val + amount.val ∧ w' = { w with balance := b } := by
  unfold step at h
  simp only [Option.bind_eq_bind, Option.bind_eq_some_iff, Word.add?_eq_some, Option.pure_def,
    Option.some.injEq] at h
  obtain ⟨b, hb, rfl⟩ := h
  exact ⟨b, hb, rfl⟩

theorem time_step {now : ℕ} (h : w.step (.time now) = some w') :
    w.now ≤ now ∧ now ≤ maxBlockSeconds ∧ w' = { w with now := now } := by
  unfold step at h
  dsimp only at h
  split at h
  · rename_i hc
    simp only [Option.some.injEq] at h
    exact ⟨hc.1, hc.2, h.symm⟩
  · simp at h

/-- **Crediting what is complete is a run of full credits.** -/
theorem creditReady_run (h : w.creditReady = some w') :
    ∃ hist, Run (fun w id w' => creditFull w id = some w') w hist w' ∧
      ∀ id ∈ hist, w.ready id = true := by
  refine ⟨_, Run.of_foldlM h, fun id hid => ?_⟩
  rw [List.mem_reverse] at hid
  exact (List.mem_filter.1 hid).2

theorem creditFull_ok (h : w.creditFull id = some w') :
    ∃ r amount, w.returns.lookup id = some r ∧ amount.val = r.amount ∧
      w.credit id amount = some w' := by
  unfold creditFull at h
  simp only [Option.bind_eq_bind, Option.bind_eq_some_iff, Word.ofNat?_eq_some] at h
  obtain ⟨r, hr, amount, ha, h⟩ := h
  exact ⟨r, amount, hr, ha, h⟩

/-! ## Histories -/

/-- The steps of a step function. -/
abbrev Next (next : World → Event → Option World) (w : World) (e : Event) (w' : World) : Prop :=
  next w e = some w'

/-- What a transaction has to meet, as a guard on events. -/
def OnTx (P : World → Tx → Prop) (w : World) : Event → Prop
  | .tx t => P w t
  | _ => True

instance OnTx.decidable (P : World → Tx → Prop) [∀ w t, Decidable (P w t)] (w : World) :
    ∀ e, Decidable (OnTx P w e)
  | .tx t => inferInstanceAs (Decidable (P w t))
  | .migrate => .isTrue trivial
  | .inflow _ => .isTrue trivial
  | .credit _ _ => .isTrue trivial
  | .time _ => .isTrue trivial

theorem OnTx.and {P Q : World → Tx → Prop} (hP : OnTx P w e) (hQ : OnTx Q w e) :
    OnTx (fun w t => P w t ∧ Q w t) w e := by
  cases e with
  | tx t => exact ⟨hP, hQ⟩
  | _ => trivial

theorem onTx_true : OnTx (fun _ _ => True) w e := by cases e <;> trivial

variable {next : World → Event → Option World} {h : List Event}

/-- **The invariant rule of worlds.** -/
theorem Along.inv {P : World → Prop} (ha : Along next h w) (h0 : ∀ w, w.Fresh → P w)
    (hstep : ∀ w e w', P w → next w e = some w' → P w') : P w := by
  obtain ⟨w₀, hf, hr⟩ := ha
  exact hr.inv (h0 w₀ hf) hstep

theorem Reaches.inv {P : World → Prop} (hr : Reaches next w) (h0 : ∀ w, w.Fresh → P w)
    (hstep : ∀ w e w', P w → next w e = some w' → P w') : P w :=
  let ⟨_, ha⟩ := hr
  ha.inv h0 hstep

/-- A replayed history is one. -/
theorem along_replay {es : List Event} (hf : w.Fresh) (hr : es.foldlM next w = some w') :
    Along next es.reverse w' := ⟨w, hf, Run.of_foldlM hr⟩

/-! ## The storage of a world -/

theorem Fresh.instantiated (hf : w.Fresh) : Instantiated w.store := by
  obtain ⟨-, -, view, info, msg, resp, hi⟩ := hf
  exact ⟨_, _, _, _, _, hi⟩

theorem creditFull_store (hs : w.creditFull id = some w') :
    w'.store = w.store ∧ w'.now = w.now ∧ w'.self = w.self := by
  obtain ⟨r, amount, -, -, hc⟩ := creditFull_ok hs
  obtain ⟨r, b, -, -, -, -, rfl⟩ := credit_ok hc
  exact ⟨rfl, rfl, rfl⟩

theorem creditReady_store (hs : w.creditReady = some w') :
    w'.store = w.store ∧ w'.now = w.now ∧ w'.self = w.self := by
  obtain ⟨hist, hr, -⟩ := creditReady_run hs
  refine hr.inv (P := fun v => v.store = w.store ∧ v.now = w.now ∧ v.self = w.self)
    ⟨rfl, rfl, rfl⟩ ?_
  rintro v i v' ⟨h1, h2, h3⟩ hs
  obtain ⟨h1', h2', h3'⟩ := creditFull_store hs
  exact ⟨h1'.trans h1, h2'.trans h2, h3'.trans h3⟩

/-- An event leaves the storage alone or is a successful call. -/
theorem step_store (hs : w.step e = some w') :
    w'.store = w.store ∨ ∃ c, LstCore.Step w.store c w'.store := by
  cases e with
  | tx t =>
    obtain ⟨b, store, resp, till, -, he, -, rfl⟩ := tx_ok hs
    exact .inr ⟨(.execute _ _ _ _, resp), he⟩
  | migrate =>
    obtain ⟨resp, hm, -⟩ := migrate_step hs
    exact .inr ⟨(.migrate, resp), hm⟩
  | inflow amount =>
    obtain ⟨b, -, rfl⟩ := inflow_step hs
    exact .inl rfl
  | credit id amount =>
    obtain ⟨r, b, -, -, -, -, rfl⟩ := credit_ok hs
    exact .inl rfl
  | time now =>
    obtain ⟨-, -, rfl⟩ := time_step hs
    exact .inl rfl

/-- What an event other than a transaction moves: at most the balance, or one return, which it
brings in. -/
inductive Inflow (w : World) (e : Event) (w' : World) : Prop
  | plain (hr : w'.returns = w.returns) (hb : w.balance.val ≤ w'.balance.val)
      (hne : ∀ id amount, e ≠ .credit id amount)
  | credit {id : ℕ} {amount : Uint128} {r : Return} (he : e = .credit id amount)
      (hr : w.returns.lookup id = some r) (hn : r.credited = none) (hle : amount.val ≤ r.amount)
      (hb : w'.balance.val = w.balance.val + amount.val)
      (hr' : w'.returns = w.returns.insert id { r with credited := some amount })

/-- **Every event but a transaction** leaves the queue and its totals alone. -/
theorem step_other (hs : w.step e = some w') (hne : ∀ t, e ≠ .tx t) :
    w'.store.queue = w.store.queue ∧ w'.store.totals = w.store.totals ∧
      w'.now ≤ max w.now maxBlockSeconds ∧ Inflow w e w' := by
  cases e with
  | tx t => exact absurd rfl (hne t)
  | migrate =>
    obtain ⟨resp, hm, hw⟩ := migrate_step hs
    obtain ⟨hst, -⟩ := migrate_ok hm
    rw [hst] at hw
    subst hw
    exact ⟨rfl, rfl, le_max_left _ _, .plain rfl (Nat.le_refl _) (by simp)⟩
  | inflow amount =>
    obtain ⟨b, hb, rfl⟩ := inflow_step hs
    exact ⟨rfl, rfl, le_max_left _ _, .plain rfl (by simp only; omega) (by simp)⟩
  | credit id amount =>
    obtain ⟨r, b, hr, hn, hle, hb, rfl⟩ := credit_ok hs
    exact ⟨rfl, rfl, le_max_left _ _, .credit rfl hr hn hle hb rfl⟩
  | time now =>
    obtain ⟨-, hle, rfl⟩ := time_step hs
    exact ⟨rfl, rfl, le_max_of_le_right hle, .plain rfl (Nat.le_refl _) (by simp)⟩

/-- **A prompt step**: an event of the chain, then every complete return. -/
theorem promptStep_ok (hs : w.promptStep e = some w') :
    (∀ id amount, e ≠ .credit id amount) ∧ ∃ v, w.step e = some v ∧ v.creditReady = some w' := by
  cases e with
  | credit id amount => unfold promptStep at hs; simp at hs
  | _ =>
    unfold promptStep at hs
    simp only [Option.bind_eq_bind, Option.bind_eq_some_iff] at hs
    exact ⟨by simp, hs⟩

theorem blockStep_time {now : ℕ} (hs : w.blockStep (.time now) = some w') :
    ∃ v, w.creditReady = some v ∧ v.step (.time now) = some w' := by
  unfold blockStep at hs
  simpa only [Option.bind_eq_bind, Option.bind_eq_some_iff] using hs

theorem blockStep_other (hs : w.blockStep e = some w') (hne : ∀ now, e ≠ .time now) :
    w.step e = some w' ∧ ∀ id amount, e ≠ .credit id amount := by
  cases e with
  | time now => simp at hne
  | credit id amount => unfold blockStep at hs; simp at hs
  | _ => unfold blockStep at hs; exact ⟨hs, by simp⟩

/-- **The storage of a reached world is reachable.** -/
theorem Reaches.reachable
    (hnext : ∀ {w e w'}, next w e = some w' → w'.store = w.store ∨ ∃ c, LstCore.Step w.store c w'.store)
    (hr : Reaches next w) : Reachable w.store := by
  refine hr.inv (P := fun w => Reachable w.store) (fun w hf => ⟨_, [], hf.instantiated, .nil⟩) ?_
  intro w e w' hR hs
  rcases hnext hs with he | ⟨c, hc⟩
  · rw [he]; exact hR
  · exact hR.step hc

theorem replay_reachable {es : List Event} (hf : w.Fresh) (hr : es.foldlM step w = some w') :
    Reachable w'.store :=
  Reaches.reachable step_store ⟨_, along_replay hf hr⟩

end World

/-! ## The deployment of the tests -/

def devParams : ProtocolParams where
  unbondWindowSecs := 5 * 86400
  unbondingPeriodSecs := 21 * 86400
  performanceFeeBps := 800
  withdrawalFeeBps := 0
  minDeposit := Uint128.new 1000000
  syncStaleAfterSecs := 7200
  maxUnbondEntriesPerValidator := 6

def devValidators : List ValidatorInit :=
  ["validatorone", "validatortwo", "validatorthree", "validatorfour"].map fun v => ⟨v, 2500⟩

def devInit : InstantiateMsg where
  manager := some "manager"
  limits := ⟨1000, 2500⟩
  validatorAllowlist := devValidators.map (·.address)
  treasury := "treasury"
  bondedDenom := "uscrt"
  validators := devValidators
  params := devParams

def devConfig : Config where
  manager := "manager"
  deployer := some "deployer"
  limits := ⟨1000, 2500⟩
  treasury := "treasury"
  token := none
  bondedDenom := "uscrt"
  params := devParams
  paused := false

/-- A chain that reports the delegations and rewards given, and a supply. -/
def devView (supply : Uint128) (delegations : List (String × Uint128 × Uint128)) : Deps where
  queryBalance _ _ := .ok 0
  queryDelegation _ v := .ok ((delegations.find? fun d => d.1 == v).map fun d =>
    ⟨⟨"uscrt", d.2.1⟩, [⟨"uscrt", d.2.2⟩]⟩)
  queryTokenInfo _ := .ok (some supply)
  addrValidate a := .ok a

def devSelf : ContractInfo := ⟨"contract", "codehash"⟩

def devStart : ℕ := 1571797419

/-- The fresh deployment. -/
def devWorld : World where
  store := initialStorage ⟨devStart, devSelf⟩ devConfig devInit.validatorAllowlist devValidators
  now := devStart
  self := devSelf
  balance := 0
  returns := ∅

theorem devWorld_fresh : devWorld.Fresh :=
  ⟨rfl, by decide, devView 0 [], ⟨"deployer", []⟩, devInit, ⟨[], none⟩, by rfl⟩

/-- A transaction of `sender` that carries `funds`, while the chain reports `view`. -/
def devTx (view : Deps) (sender : Addr) (funds : Uint128) (msg : ExecuteMsg) : Event :=
  .tx ⟨view, ⟨sender, if funds = 0 then [] else [⟨"uscrt", funds⟩]⟩, msg⟩

/-- The shares a user sends back with the hook message of a withdrawal. -/
def devUnbond (user : Addr) (shares : Uint128) : ExecuteMsg :=
  .receive user user shares (some (.ok .unbond))

/-- The seed, which the first validator gets. -/
def devBootstrap : Event :=
  devTx (devView 0 []) "deployer" (Uint128.new 10000000) (.bootstrap "token" "tokenhash")

/-- A user deposits 100 SCRT, which the second validator gets. -/
def devDeposit : Event :=
  devTx (devView (Uint128.new 10000000) [("validatorone", Uint128.new 10000000, 0)])
    "user" (Uint128.new 100000000) .deposit

/-- What the chain reports once both have been delegated. -/
def devBonded : Deps := devView (Uint128.new 110000000)
  [("validatorone", Uint128.new 10000000, 0), ("validatortwo", Uint128.new 100000000, 0)]

/-- The user withdraws 40 SCRT. -/
def devWithdraw : Event := devTx devBonded "token" 0 (devUnbond "user" (Uint128.new 40000000))

/-- The window closes with the withdrawal in it. -/
def devClose : List Event :=
  [devBootstrap, devDeposit, devWithdraw, .time (devStart + 5 * 86400),
    devTx devBonded "keeper" 0 .advanceWindow]

/-- What the chain reports once the first window has closed. -/
def devHalved : Deps := devView (Uint128.new 70000000)
  [("validatorone", Uint128.new 10000000, 0), ("validatortwo", Uint128.new 60000000, 0)]

/-- The user withdraws 10 SCRT more, and the second window closes five days after the first. -/
def devTwoClosed : List Event :=
  devClose ++ [devTx devHalved "token" 0 (devUnbond "user" (Uint128.new 10000000)),
    .time (devStart + 10 * 86400), devTx devHalved "keeper" 0 .advanceWindow]

/-- Anyone collects. -/
def devCollect : Event := devTx devHalved "keeper" 0 (.collectMatured none)

/-- The unbonding period passes and what was undelegated comes back. -/
def devReturned : List Event :=
  devClose ++ [.time (devStart + 26 * 86400), .credit 0 (Uint128.new 40000000)]

/-- The user claims it. -/
def devClaim : List Event := devReturned ++ [devTx devBonded "user" 0 (.claimMatured none)]

end LstCore
