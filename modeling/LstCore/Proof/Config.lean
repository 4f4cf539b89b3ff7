import LstCore.Proof.Refine

/-!
# What a call does to the configuration

* `Reconfigured`: the ways a message rewrites the configuration.
* `execute_config`: there are no others. No message rewrites the allowlist
  (`execute_allowlist`).
-/

namespace LstCore

open Lib

variable {deps : Deps} {env : Env} {info : MessageInfo} {st st₁ st' : Storage} {resp : Response}

/-- The ways a message rewrites the configuration: not at all, by binding the token, by the
pause, or by setting a fee within the ceiling. -/
inductive Reconfigured (c : Config) : ExecuteMsg → Config → Prop
  | same {msg : ExecuteMsg} : Reconfigured c msg c
  | bound {tokenAddress tokenCodeHash : String} (token : ContractInfo) (h : c.token = none) :
      Reconfigured c (.bootstrap tokenAddress tokenCodeHash)
        { c with deployer := none, token := some token }
  | paused (paused : Bool) : Reconfigured c (.setPaused paused) { c with paused := paused }
  | fee (bps : ℕ) (h : bps ≤ c.limits.maxPerformanceFeeBps) :
      Reconfigured c (.manager (.setPerformanceFee bps))
        { c with params := { c.params with performanceFeeBps := bps } }

theorem Reconfigured.limits {c c' : Config} {msg : ExecuteMsg} (h : Reconfigured c msg c') :
    c'.limits = c.limits := by
  cases h <;> rfl

/-- A token that is bound stays bound. -/
theorem Reconfigured.unbound {c c' : Config} {msg : ExecuteMsg} (h : Reconfigured c msg c')
    (ht : c'.token = none) : c.token = none := by
  cases h with
  | same | paused | fee => exact ht
  | bound token h => exact h

/-- Only a bootstrap binds a token. -/
theorem Reconfigured.binds {c c' : Config} {msg : ExecuteMsg} (h : Reconfigured c msg c')
    (ht : c.token = none) (ht' : c'.token ≠ none) : ∃ addr hash, msg = .bootstrap addr hash := by
  cases h with
  | same | paused | fee => exact absurd ht ht'
  | bound => exact ⟨_, _, rfl⟩

theorem validateLimits_ok {limits : ManagerLimits} (h : validateLimits limits = .ok ()) :
    limits.maxPerformanceFeeBps ≤ maxPerformanceFeeBps ∧
      limits.maxValidatorWeightBps ≤ maxValidatorWeightBps := by
  unfold validateLimits at h
  simp only [guard_eq_ok, not_or, not_lt] at h
  exact ⟨h.1.1, h.1.2.1⟩

/-- The configuration and the allowlist stay. -/
structure SameSettings (st st' : Storage) : Prop where
  config : st'.config = st.config
  allowlist : st'.allowlist = st.allowlist

theorem SameSettings.trans (h : SameSettings st st₁) (h' : SameSettings st₁ st') :
    SameSettings st st' :=
  ⟨h'.config.trans h.config, h'.allowlist.trans h.allowlist⟩

theorem ClosesFrom.settings (h : ClosesFrom st st₁) : SameSettings st st₁ := by
  cases h with
  | advance => exact ⟨rfl, rfl⟩
  | deposit h =>
    obtain ⟨d, rfl, -⟩ := acceptDeposit_ok h
    have hconfig : d.priced.config = st.config := refreshTotals_config d.refreshed
    exact ⟨hconfig, d.still.allowlist⟩
  | receive h =>
    obtain ⟨st₂, -, -, -, -, hprice, hj⟩ := requestWithdrawal_ok h
    obtain ⟨pool, hpool, -⟩ := priceWithdrawal_eq_ok.1 hprice
    have hrefresh := (pricingPool_eq_ok.1 hpool).1
    have hpriced : SameSettings st st₂ :=
      ⟨refreshTotals_config hrefresh, (refreshTotals_still hrefresh).1.allowlist⟩
    obtain ⟨u, oo, -, -, -, hst⟩ := joinWindow_ok hj
    rw [hst]
    exact ⟨hpriced.config, hpriced.allowlist⟩

theorem overdue_settings {messages : List CosmosMsg}
    (h : closeWindowIfOverdue env st = .ok (st', messages)) : SameSettings st st' := by
  rcases closeWindowIfOverdue_ok h with ⟨rfl, -⟩ | ⟨w, closing, hw, hopen, hdue, hc, -⟩
  · exact ⟨rfl, rfl⟩
  · obtain ⟨used, -, ⟨hcfg, hallow, -⟩, -⟩ := closeOpenWindow_ok hw hopen hdue hc
    exact ⟨hcfg, hallow⟩

theorem checkDeployer_ok {config : Config} {sender : Addr}
    (h : checkDeployer config sender = .ok ()) :
    config.deployer = some sender ∧ config.token = none := by
  unfold checkDeployer at h
  split at h
  · rename_i hd
    simp only [guard_eq_ok, Option.isSome_iff_ne_none, ne_eq, not_not] at h
    exact ⟨h.1 ▸ hd, h.2.1⟩
  · simp at h

/-- A bootstrap is the deployer's, and finds no token bound. -/
theorem executeBootstrap_checked {tokenAddress tokenCodeHash : String}
    (h : executeBootstrap deps env info tokenAddress tokenCodeHash st = .ok (st', resp)) :
    st.config.deployer = some info.sender ∧ st.config.token = none := by
  unfold executeBootstrap at h
  simp only [bind_eq_ok] at h
  obtain ⟨_, hcheck, -⟩ := h
  exact checkDeployer_ok hcheck

/-- A message reconfigures in one of the listed ways, and none rewrites the allowlist. -/
theorem execute_settings {msg : ExecuteMsg} (hB : Booked st)
    (h : execute deps env info msg st = .ok (st', resp)) :
    Reconfigured st.config msg st'.config ∧ st'.allowlist = st.allowlist := by
  have same : SameSettings st st' →
      Reconfigured st.config msg st'.config ∧ st'.allowlist = st.allowlist :=
    fun hs => ⟨hs.config ▸ .same, hs.allowlist⟩
  cases msg with
  | deposit =>
    obtain ⟨st₁, _, _, _, _, ha, hc, -⟩ := executeDeposit_ok h
    exact same ((ClosesFrom.deposit ha).settings.trans (overdue_settings hc))
  | receive sender fromAddr amount msg =>
    obtain ⟨st₁, _, _, _, _, ha, hc, -⟩ := executeReceive_ok h
    exact same ((ClosesFrom.receive ha).settings.trans (overdue_settings hc))
  | claimMatured windowIds =>
    obtain ⟨_, _, st₁, _, _, -, hM, -, hP, -⟩ := executeClaimMatured_ok hB h
    exact same ⟨by rw [hP.frame, hM.frame], by rw [hP.frame, hM.frame]⟩
  | compound limit =>
    obtain ⟨c, rfl, -⟩ := executeCompound_ok h
    exact same ⟨rfl, c.still.allowlist⟩
  | advanceWindow =>
    obtain ⟨w, closing, hw, hopen, hdue, hc, -⟩ := executeAdvanceWindow_ok h
    obtain ⟨used, -, ⟨hcfg, hallow, -⟩, -⟩ := closeOpenWindow_ok hw hopen hdue hc
    exact same ⟨hcfg, hallow⟩
  | collectMatured limit =>
    obtain ⟨ids, hmat, -⟩ := executeCollectMatured_ok h
    obtain ⟨_, _, -, hM, -⟩ := matureDueWindows_ok hB hmat
    exact same ⟨by rw [hM.frame], by rw [hM.frame]⟩
  | sync limit =>
    obtain ⟨s, rfl, -⟩ := executeSync_ok h
    exact same ⟨rfl, s.still.allowlist⟩
  | manager m =>
    refine ⟨?_, (executeManager_still h).allowlist⟩
    rcases executeManager_ok h with
      ⟨weights, rfl, -, rfl, -⟩ | ⟨bps, rfl, hle, rfl, -⟩ | ⟨plan, acc, rfl, -, rfl, -⟩
    · exact .same
    · exact .fee bps hle
    · exact .same
  | setPaused paused =>
    obtain ⟨rfl, -⟩ := executeSetPaused_ok h
    exact ⟨.paused paused, rfl⟩
  | bootstrap tokenAddress tokenCodeHash =>
    have hcheck := executeBootstrap_checked h
    obtain ⟨s, rfl, -⟩ := executeBootstrap_ok h
    exact ⟨.bound _ hcheck.2, rfl⟩

/-- **Every message's effect on the configuration.** -/
theorem execute_config {msg : ExecuteMsg} (hB : Booked st)
    (h : execute deps env info msg st = .ok (st', resp)) : Reconfigured st.config msg st'.config :=
  (execute_settings hB h).1

theorem execute_allowlist {msg : ExecuteMsg} (hB : Booked st)
    (h : execute deps env info msg st = .ok (st', resp)) : st'.allowlist = st.allowlist :=
  (execute_settings hB h).2

end LstCore
