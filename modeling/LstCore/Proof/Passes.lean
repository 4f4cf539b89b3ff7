import LstCore.Proof.Blocks
import LstCore.Spec.Passes

/-!
# What a pass does

Each part of a pass, inverted: what it leaves on the desk when it goes through (`runChecks_ok`,
`windowUpkeep_ok`, `sweep_ok`, and from them `pass_ok`).

`Follows` is what the keeper relies on outside: the contract goes on block by block, whoever calls it
between the keeper's questions; a question is answered from the storage of its moment; and a
transaction that is reported to have gone through has been a call of the contract.
-/

namespace LstCore

open Lib

/-! ## The contract behind the outside -/

namespace Blocks

variable {b b' b'' : Blocks}

/-- The contract some calls and blocks later. -/
def Later (b b' : Blocks) : Prop := ∃ es, Run (fun b e b' => step b e = some b') b es b'

theorem Later.refl (b : Blocks) : Later b b := ⟨[], .nil⟩

theorem Later.trans (h : Later b b') (h' : Later b' b'') : Later b b'' := by
  obtain ⟨es, hr⟩ := h
  obtain ⟨es', hr'⟩ := h'
  exact ⟨_, hr.trans hr'⟩

theorem Later.of_step {e : BlockEvent} (h : b.step e = some b') : Later b b' := ⟨[e], .single h⟩

/-- What every step keeps of a paced block holds later. -/
theorem Later.inv {P : Blocks → Prop} (h : Later b b') (hP : b.Paced) (h0 : P b)
    (hstep : ∀ b e b', b.Paced → P b → b.step e = some b' → P b') : b'.Paced ∧ P b' := by
  obtain ⟨es, hr⟩ := h
  refine hr.inv (P := fun b => b.Paced ∧ P b) ⟨hP, h0⟩ ?_
  rintro b e b' ⟨hP, h0⟩ hs
  refine ⟨?_, hstep b e b' hP h0 hs⟩
  cases e with
  | call c => exact hP.call hs
  | next now => exact hP.next hs

theorem Later.paced (h : Later b b') (hP : b.Paced) : b'.Paced :=
  (h.inv (P := fun _ => True) hP trivial fun _ _ _ _ _ _ => trivial).1

/-- Blocks do not go back. -/
theorem Later.now_le (h : Later b b') (hP : b.Paced) : b.now ≤ b'.now := by
  refine (h.inv (P := fun b' => b.now ≤ b'.now) hP (Nat.le_refl _) fun b₁ e b₂ _ hle hs => ?_).2
  cases e with
  | call c =>
    obtain ⟨store, resp, -, -, rfl⟩ := call_ok hs
    exact hle
  | next now =>
    unfold step at hs
    dsimp only at hs
    split at hs
    · rename_i hnow
      cases hs
      exact hle.trans hnow.1
    · cases hs

end Blocks

namespace Keeper

variable {σ : Type} {client : Outside σ} {chain : σ → Blocks} {config : KeeperConfig} {limit : ℕ}
  {formatRate toFixed : ℕ → String} {s s' : σ} {d d' : Desk σ} {now : ℕ} {stale : Bool}

/-- Where an act leads the contract. -/
def Onward (chain : σ → Blocks) (s s' : σ) : Prop := (chain s).Later (chain s')

theorem onward_trans (s t u : σ) (h : Onward chain s t) (h' : Onward chain t u) : Onward chain s u :=
  h.trans h'

/-- **The outside of a keeper.** -/
structure Follows (client : Outside σ) (chain : σ → Blocks) : Prop where
  sent : ∀ msg, Act.Keeps (Onward chain) (client.send msg)
  /-- What is reported to have gone through was a call. -/
  called : ∀ {msg s s'}, client.execute msg s = (s', .ok ()) → ∃ b b' deps env info,
    (chain s).Later b ∧ b.step (.call (.execute deps env info msg)) = some b' ∧ b'.Later (chain s')
  looked : Act.Keeps (Onward chain) client.look
  /-- The state that is looked at is that of the moment. -/
  shown : ∀ {s s' state}, client.look s = (s', .ok state) → ∃ deps env,
    env.time = (chain s').now ∧ queryState deps env (chain s').store = .ok state
  validators : Act.Keeps (Onward chain) client.validators
  listed : ∀ state, Act.Keeps (Onward chain) (client.windows state)
  /-- A page is one of the windows of the moment. -/
  page : ∀ {state s s' ws}, client.windows state s = (s', .ok ws) →
    ws = Keeper.windows state (chain s').store
  gas : Act.Keeps (Onward chain) client.gasBalance
  clock : Act.Keeps (Onward chain) client.clock

/-! ## Tasks -/

theorem compoundTask_task {o : TaskOutcome} (h : compoundTask client.toClient limit s = (s', .ok o)) :
    o.task = "compound" := by
  obtain ⟨t, sweep, -, h⟩ := Act.bind_eq_ok.1 h
  obtain ⟨-, he⟩ := Prod.mk.inj h
  obtain rfl := Except.ok.inj he
  cases sweep <;> rfl

theorem sync_task {o : TaskOutcome} (h : sync client.toClient limit s = (s', .ok o)) :
    o.task = "sync" := by
  obtain ⟨t, before, -, h⟩ := Act.bind_eq_ok.1 h
  obtain ⟨u, refresh, -, h⟩ := Act.bind_eq_ok.1 h
  obtain ⟨-, he⟩ := Prod.mk.inj h
  obtain rfl := Except.ok.inj he
  cases refresh <;> rfl

theorem Follows.executed {msg : ExecuteMsg} {r : Except String Unit} (hf : Follows client chain)
    (h : client.execute msg s = (s', r)) : Onward chain s s' := by
  have hs := hf.sent msg s
  unfold Client.send at hs
  rwa [h] at hs

theorem send_ok {client : Client σ} {msg : ExecuteMsg} {r : Except String Unit}
    (h : client.send msg s = (s', .ok r)) : client.execute msg s = (s', r) := by
  unfold Client.send at h
  rcases hx : client.execute msg s with ⟨t, q⟩
  rw [hx] at h
  obtain ⟨rfl, hr⟩ := Prod.mk.inj h
  rw [Except.ok.inj hr]

/-- **The window tasks lead onward.** -/
theorem windowTask_onward (hf : Follows client chain) (state : WindowState)
    (task : (Option WindowState → List UnbondWindow) → ℕ → Decision) :
    Act.Keeps (Onward chain) (windowTask client state task) := by
  unfold windowTask
  refine .bind onward_trans (hf.listed _) fun ws => .bind onward_trans hf.clock fun now => ?_
  cases task (fun _ => ws) (now / 1000) with
  | report outcome => exact Act.keeps_pure (fun s => .refl (chain s)) outcome
  | send msg outcome =>
    exact .bind onward_trans (hf.sent msg) fun r => Act.keeps_pure (fun s => .refl (chain s)) _

/-- **So does the compound task**, turn by turn. -/
theorem compoundLoop_onward (hf : Follows client chain) : ∀ left calls,
    Act.Keeps (Onward chain) (compoundLoop client.toClient limit left calls : Act String σ Sweep) := by
  intro left
  induction left with
  | zero => exact fun calls => Act.keeps_pure (fun s => .refl (chain s)) _
  | succ left ih =>
    intro calls s
    unfold compoundLoop
    rcases hsend : client.execute (.compound (some limit)) s with ⟨t, error | ⟨⟩⟩
    · exact hf.executed hsend
    have ht : Onward chain s t := hf.executed hsend
    have hu := hf.looked t
    unfold Client.look at hu
    dsimp only
    rcases hlook : client.state t with ⟨u, error | state⟩ <;> rw [hlook] at hu
    · exact ht.trans hu
    dsimp only
    split
    · exact ht.trans hu
    · exact (ht.trans hu).trans (ih (calls + 1) u)

theorem compoundTask_onward (hf : Follows client chain) :
    Act.Keeps (Onward chain) (compoundTask client.toClient limit) :=
  .bind onward_trans (compoundLoop_onward hf maxTurns 0) fun sweep =>
    Act.keeps_pure (fun s => .refl (chain s)) sweep.outcome

/-- **And the sync task.** -/
theorem syncLoop_onward (hf : Follows client chain) : ∀ left calls,
    Act.Keeps (Onward chain) (syncLoop client.toClient limit left calls) := by
  intro left
  induction left with
  | zero => exact fun calls => Act.keeps_pure (fun s => .refl (chain s)) _
  | succ left ih =>
    intro calls
    refine .bind onward_trans (hf.sent _) fun result => ?_
    cases result with
    | error error => exact Act.keeps_pure (fun s => .refl (chain s)) _
    | ok =>
      refine .bind onward_trans hf.looked fun state => ?_
      split
      · exact ih (calls + 1)
      · exact Act.keeps_pure (fun s => .refl (chain s)) _

theorem sync_onward (hf : Follows client chain) :
    Act.Keeps (Onward chain) (sync client.toClient limit) :=
  .bind onward_trans hf.looked fun before => .bind onward_trans (syncLoop_onward hf maxTurns 0)
    fun refresh => Act.keeps_pure (fun s => .refl (chain s)) (refresh.outcome before)

theorem ask_ok {α : Type} {x : Act String σ α} {a : α} (h : Desk.ask x d = (d', .ok a)) :
    ∃ t, x d.world = (t, .ok a) ∧ d' = { d with world := t } :=
  Act.on_eq_ok.1 h

theorem remembering_ok {α : Type} {f : Memory → Memory × α} {a : α}
    (h : Desk.remembering f d = (d', .ok a)) :
    d' = { d with memory := (f d.memory).1 } ∧ a = (f d.memory).2 := by
  obtain ⟨rfl, ha⟩ := Prod.mk.inj h
  exact ⟨rfl, (Except.ok.inj ha).symm⟩

/-! ## The checks -/

theorem checkExchangeRate_check {state : StateResponse} {memory : Memory} :
    (checkExchangeRate formatRate state memory).2.check = "exchange-rate" := by
  unfold checkExchangeRate
  dsimp only
  split
  · rfl
  · split <;> rfl

theorem checkSolvency_check {state : StateResponse} : (checkSolvency state).check = "solvency" := by
  unfold checkSolvency
  dsimp only
  split <;> rfl

theorem checkEntrySlots_check {validators : List ValidatorEntry} {ceiling : ℕ} :
    ∀ f ∈ checkEntrySlots validators ceiling, f.check = "unbond-entries" := by
  intro f hf
  obtain ⟨v, -, rfl⟩ := List.mem_map.1 hf
  rfl

theorem checkValidatorDrift_check {validators : List ValidatorEntry} {memory : Memory} :
    ∀ f ∈ (checkValidatorDrift validators memory).2, f.check = "validator-drift" := by
  intro f hf
  obtain ⟨v, -, hv⟩ := List.mem_filterMap.1 hf
  unfold drifted at hv
  split at hv
  · cases hv
  · cases hv
  · split at hv
    · cases hv
      rfl
    · cases hv

theorem checkGas_check {balance : ℕ} : (checkGas toFixed balance).check = "keeper-gas" := by
  unfold checkGas
  dsimp only
  split
  · rfl
  · split <;> rfl

/-- Whether the cache is stale is the freshness check's to say. -/
theorem foundStale_eq {state : StateResponse} {now : ℕ} {rest : List Finding}
    (h : ∀ f ∈ rest, f.check ≠ "freshness") :
    foundStale (checkFreshness state now :: rest) = state.isUnattended := by
  have hrest : foundStale rest = false := by
    rw [foundStale, List.any_eq_false]
    intro f hf
    simp [h f hf]
  have hcons : foundStale (checkFreshness state now :: rest) =
      (foundStale [checkFreshness state now] || foundStale rest) := by
    simp [foundStale]
  rw [hcons, hrest, Bool.or_false]
  unfold checkFreshness
  cases state.isUnattended <;> rfl

/-- **The checks** look at the state, and note nothing of the schedules and the log. -/
theorem runChecks_ok {findings : List Finding} {entryCeiling : ℕ} (hf : Follows client chain)
    (h : runChecks formatRate toFixed client entryCeiling d = (d', .ok findings)) :
    d'.window = d.window ∧ d'.compound = d.compound ∧ d'.log = d.log ∧
      ∃ s state, client.look d.world = (s, .ok state) ∧ Onward chain s d'.world ∧
        foundStale findings = state.isUnattended := by
  obtain ⟨d₁, state, hlook, h⟩ := Act.bind_eq_ok.1 h
  obtain ⟨d₂, validators, hvals, h⟩ := Act.bind_eq_ok.1 h
  obtain ⟨d₃, now, hclock, h⟩ := Act.bind_eq_ok.1 h
  obtain ⟨d₄, rate, hrate, h⟩ := Act.bind_eq_ok.1 h
  obtain ⟨d₅, drift, hdrift, h⟩ := Act.bind_eq_ok.1 h
  obtain ⟨d₆, balance, hgas, h⟩ := Act.bind_eq_ok.1 h
  obtain ⟨s₁, hs₁, rfl⟩ := ask_ok hlook
  obtain ⟨s₂, hs₂, rfl⟩ := ask_ok hvals
  obtain ⟨s₃, hs₃, rfl⟩ := ask_ok hclock
  obtain ⟨rfl, hr⟩ := remembering_ok hrate
  obtain ⟨rfl, hv⟩ := remembering_ok hdrift
  obtain ⟨s₆, hs₆, rfl⟩ := ask_ok hgas
  obtain ⟨rfl, hfound⟩ := Prod.mk.inj h
  obtain rfl := Except.ok.inj hfound
  have honward : Onward chain s₁ s₆ :=
    ((hf.validators.ok hs₂).trans (hf.clock.ok hs₃)).trans (hf.gas.ok hs₆)
  refine ⟨rfl, rfl, rfl, s₁, state, hs₁, honward, ?_⟩
  rw [hr, hv]
  simp only [List.cons_append, List.nil_append]
  refine foundStale_eq fun f hf => ?_
  simp only [List.mem_cons, List.mem_append, List.not_mem_nil, or_false] at hf
  rcases hf with rfl | rfl | (hf | hf) | rfl
  · rw [checkExchangeRate_check]; decide
  · rw [checkSolvency_check]; decide
  · rw [checkEntrySlots_check f hf]; decide
  · rw [checkValidatorDrift_check f hf]; decide
  · rw [checkGas_check]; decide

/-! ## The parts of a pass -/

/-- The outcomes that are logged. -/
def outcomes (lines : List Line) : List TaskOutcome :=
  lines.filterMap fun
    | .outcome o => some o
    | .finding _ => none

theorem mem_outcomes {o : TaskOutcome} {lines : List Line} : o ∈ outcomes lines ↔ .outcome o ∈ lines := by
  unfold outcomes
  rw [List.mem_filterMap]
  constructor
  · rintro ⟨_ | o, hmem, ho⟩
    · cases ho
    · obtain rfl := Option.some.inj ho
      exact hmem
  · exact fun hmem => ⟨_, hmem, rfl⟩

/-- **The window jobs**: none, or both, logged, with the schedule marked. -/
theorem windowUpkeep_ok (h : windowUpkeep client config now d = (d', .ok ())) :
    (d.window.due now = false ∧ d' = d) ∨ d.window.due now = true ∧ ∃ s advanced t collected,
      windowTask client .open advanceWindow d.world = (s, .ok advanced) ∧
      windowTask client .unbonding (fun windows now => collectMatured windows now config.pageLimit) s =
        (t, .ok collected) ∧
      d' = { d with
        world := t
        window := d.window.mark now (soonest [advanced, collected])
        log := d.log ++ [.outcome advanced] ++ [.outcome collected] } := by
  obtain ⟨d₁, desk, hget, h⟩ := Act.bind_eq_ok.1 h
  obtain ⟨rfl, hd⟩ := Prod.mk.inj hget
  obtain rfl := Except.ok.inj hd
  cases hdue : d.window.due now with
  | false =>
    rw [hdue] at h
    obtain ⟨rfl, -⟩ := Prod.mk.inj h
    exact .inl ⟨rfl, rfl⟩
  | true =>
    rw [hdue] at h
    obtain ⟨d₁, advanced, ha, h⟩ := Act.bind_eq_ok.1 h
    obtain ⟨d₂, collected, hc, h⟩ := Act.bind_eq_ok.1 h
    obtain ⟨s, hs, rfl⟩ := ask_ok ha
    obtain ⟨t, ht, rfl⟩ := ask_ok hc
    obtain ⟨rfl, -⟩ := Prod.mk.inj h
    exact .inr ⟨rfl, s, advanced, t, collected, hs, ht, rfl⟩

/-- They log outcomes, and lead onward. -/
theorem windowUpkeep_rest (hf : Follows client chain)
    (h : windowUpkeep client config now d = (d', .ok ())) :
    (∃ jobs : List TaskOutcome, d'.log = d.log ++ jobs.map .outcome) ∧ Onward chain d.world d'.world := by
  rcases windowUpkeep_ok h with ⟨-, rfl⟩ | ⟨-, s, advanced, t, collected, ha, hc, rfl⟩
  · exact ⟨⟨[], (List.append_nil _).symm⟩, .refl _⟩
  · exact ⟨⟨[advanced, collected], by simp⟩,
      ((windowTask_onward hf _ _).ok ha).trans ((windowTask_onward hf _ _).ok hc)⟩

/-- **The sweep**: none, or the compound task, after which there may be a plain sync. -/
theorem sweep_ok (h : sweep client config now stale d = (d', .ok ())) :
    ((stale || d.compound.due now) = false ∧ d' = d) ∨ ∃ s swept,
      compoundTask client.toClient config.pageLimit d.world = (s, .ok swept) ∧
      (((stale && swept.failed) = false ∧ d' = { d with
          world := s
          compound := d.compound.mark now none
          log := d.log ++ [.outcome swept] }) ∨
        (stale && swept.failed) = true ∧ ∃ t synced,
          sync client.toClient config.pageLimit s = (t, .ok synced) ∧ d' = { d with
            world := t
            compound := d.compound.mark now none
            log := d.log ++ [.outcome swept] ++ [.outcome synced] }) := by
  obtain ⟨d₁, desk, hget, h⟩ := Act.bind_eq_ok.1 h
  obtain ⟨rfl, hd⟩ := Prod.mk.inj hget
  obtain rfl := Except.ok.inj hd
  cases hdue : (stale || d.compound.due now) with
  | false =>
    rw [hdue] at h
    obtain ⟨rfl, -⟩ := Prod.mk.inj h
    exact .inl ⟨rfl, rfl⟩
  | true =>
    rw [hdue] at h
    obtain ⟨d₁, swept, hask, h⟩ := Act.bind_eq_ok.1 h
    obtain ⟨s, hs, rfl⟩ := ask_ok hask
    obtain ⟨d₂, ⟨⟩, hlog, h⟩ := Act.bind_eq_ok.1 h
    obtain ⟨rfl, -⟩ := Prod.mk.inj hlog
    obtain ⟨d₃, ⟨⟩, hmark, h⟩ := Act.bind_eq_ok.1 h
    obtain ⟨rfl, -⟩ := Prod.mk.inj hmark
    refine .inr ⟨s, swept, hs, ?_⟩
    cases hf : (stale && swept.failed) with
    | false =>
      rw [hf] at h
      obtain ⟨rfl, -⟩ := Prod.mk.inj h
      exact .inl ⟨rfl, rfl⟩
    | true =>
      rw [hf] at h
      obtain ⟨d₄, synced, hask', h⟩ := Act.bind_eq_ok.1 h
      obtain ⟨t, ht, rfl⟩ := ask_ok hask'
      obtain ⟨rfl, -⟩ := Prod.mk.inj h
      exact .inr ⟨rfl, t, synced, ht, rfl⟩

/-- A sweep leaves the window schedule as it is, and logs no window job. -/
theorem sweep_rest (hf : Follows client chain)
    (h : sweep client config now stale d = (d', .ok ())) :
    d'.window = d.window ∧ ∃ tasks : List TaskOutcome, d'.log = d.log ++ tasks.map .outcome ∧
      (∀ o ∈ tasks, o.task = "compound" ∨ o.task = "sync") ∧ Onward chain d.world d'.world := by
  rcases sweep_ok h with ⟨-, rfl⟩ | ⟨s, swept, hc, ⟨-, rfl⟩ | ⟨-, t, synced, hs, rfl⟩⟩
  · exact ⟨rfl, [], (List.append_nil _).symm, by simp, .refl _⟩
  · refine ⟨rfl, [swept], rfl, fun o ho => ?_, (compoundTask_onward hf).ok hc⟩
    obtain rfl := List.mem_singleton.1 ho
    exact .inl (compoundTask_task hc)
  · refine ⟨rfl, [swept, synced], by simp, fun o ho => ?_,
      ((compoundTask_onward hf).ok hc).trans ((sync_onward hf).ok hs)⟩
    rcases List.mem_pair.1 ho with rfl | rfl
    · exact .inl (compoundTask_task hc)
    · exact .inr (sync_task hs)

/-- **A pass that is more than a check**: the checks, which are reported, the window jobs, and the
sweep. -/
theorem pass_ok (h : pass formatRate toFixed client config d = (d', .ok none)) :
    ∃ s now d₁ findings d₂, client.clock d.world = (s, .ok now) ∧
      runChecks formatRate toFixed client entryCeiling { d with world := s } = (d₁, .ok findings) ∧
      windowUpkeep client config now { d₁ with log := d₁.log ++ findings.map .finding } =
        (d₂, .ok ()) ∧
      sweep client config now (foundStale findings) d₂ = (d', .ok ()) := by
  obtain ⟨d₀, now, hclock, h⟩ := Act.bind_eq_ok.1 h
  obtain ⟨s, hs, rfl⟩ := ask_ok hclock
  obtain ⟨d₁, findings, hchecks, h⟩ := Act.bind_eq_ok.1 h
  obtain ⟨d₂, ⟨⟩, hreport, h⟩ := Act.bind_eq_ok.1 h
  obtain ⟨rfl, -⟩ := Prod.mk.inj hreport
  split at h
  · obtain ⟨-, hv⟩ := Prod.mk.inj h
    cases hv
  · obtain ⟨d₂, ⟨⟩, hwindow, h⟩ := Act.bind_eq_ok.1 h
    obtain ⟨d₃, ⟨⟩, hsweep, h⟩ := Act.bind_eq_ok.1 h
    obtain ⟨rfl, -⟩ := Prod.mk.inj h
    exact ⟨s, now, d₁, findings, d₂, hs, hchecks, hwindow, hsweep⟩

/-- **A pass leads onward.** -/
theorem pass_onward (hf : Follows client chain)
    (h : pass formatRate toFixed client config d = (d', .ok none)) :
    Onward chain d.world d'.world := by
  obtain ⟨s, now, d₁, findings, d₂, hclock, hchecks, hwindow, hsweep⟩ := pass_ok h
  obtain ⟨-, -, -, t, state, hlook, hon, -⟩ := runChecks_ok hf hchecks
  obtain ⟨-, lines, -, -, hlast⟩ := sweep_rest hf hsweep
  have hjobs := (windowUpkeep_rest hf hwindow).2
  exact (((hf.clock.ok hclock).trans (hf.looked.ok hlook)).trans (hon.trans hjobs)).trans hlast

/-! ## The deployment of the tests -/

/-- The outside of a keeper that nobody disturbs. -/
def devOutside : Outside Blocks where
  execute msg b := match b.step (devCall b.now devBonded "keeper" 0 msg) with
    | some b' => (b', .ok ())
    | none => (b, .error "refused")
  state b := match queryState devBonded ⟨b.now, devSelf⟩ b.store with
    | .ok state => (b, .ok state)
    | .error _ => (b, .error "no state")
  validators b := (b, .ok b.store.validators)
  windows state b := (b, .ok (Keeper.windows state b.store))
  gasBalance b := (b, .ok 10000000)
  clock b := (b, .ok (b.now * 1000))

theorem devOutside_follows : Follows devOutside id where
  sent msg b := by
    unfold Client.send devOutside
    dsimp only
    cases hs : b.step (devCall b.now devBonded "keeper" 0 msg) with
    | some b' => exact Blocks.Later.of_step hs
    | none => exact .refl b
  called {msg b b'} h := by
    unfold devOutside at h
    dsimp only at h
    split at h
    · rename_i b₁ hs
      obtain ⟨rfl, -⟩ := Prod.mk.inj h
      exact ⟨b, b₁, _, _, _, .refl b, hs, .refl b₁⟩
    · obtain ⟨-, he⟩ := Prod.mk.inj h
      cases he
  looked b := by
    unfold Client.look devOutside
    dsimp only
    split <;> exact .refl b
  shown {b b' state} h := by
    unfold Client.look devOutside at h
    dsimp only at h
    split at h
    · rename_i hq
      obtain ⟨rfl, he⟩ := Prod.mk.inj h
      obtain rfl := Except.ok.inj he
      exact ⟨_, _, rfl, hq⟩
    · obtain ⟨-, he⟩ := Prod.mk.inj h
      cases he
  validators b := .refl b
  listed _ b := .refl b
  page h := by
    obtain ⟨rfl, he⟩ := Prod.mk.inj h
    exact (Except.ok.inj he).symm
  gas b := .refl b
  clock b := .refl b

/-- A pass an hour, and a look at the windows every thirty days at least. -/
def devConfig : KeeperConfig := ⟨3600000, 30 * 86400000, 25, false⟩

/-- The first pass, on the day that a window has closed. -/
def devPass (b : Blocks) : Desk Blocks × Except String (Option Verdict) :=
  pass (fun _ => "") (fun _ => "") devOutside devConfig (.start devConfig b)

end Keeper

end LstCore
