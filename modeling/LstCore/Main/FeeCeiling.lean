import LstCore.Proof.Compounding
import LstCore.Proof.Config
import LstCore.Proof.World

/-!
# The fee and its ceiling

An instantiation and the manager set a fee within the ceiling; an upgrade sets the ceiling, and
leaves the fee. So the fee stays within the ceiling along exactly the runs whose upgrades are
made at a fee within the ceiling that they install (`fee_ceiling_iff`).
-/

namespace LstCore

open Lib

variable {st st' st₀ : Storage} {e : Call × Response} {h : List (Call × Response)}

/-- The fee is within the ceiling, and the ceiling within the code's own. -/
def FeeWithin (c : Config) : Prop :=
  c.params.performanceFeeBps ≤ c.limits.maxPerformanceFeeBps ∧
    c.limits.maxPerformanceFeeBps ≤ maxPerformanceFeeBps

/-- An upgrade finds a fee within the ceiling that it installs. -/
def UpgradeFits (st : Storage) (e : Call × Response) : Prop :=
  e.1 = .migrate → st.config.params.performanceFeeBps ≤ migrationMaxPerformanceFeeBps

/-- An instantiation is refused with a fee above the ceiling, or a ceiling above the code's. -/
theorem Instantiated.feeWithin (hi : Instantiated st) : FeeWithin st.config := by
  obtain ⟨deps, env, info, msg, resp, hi⟩ := hi
  obtain ⟨config, hc, hparams, hlimits, -, -, rfl⟩ := instantiate_ok hi
  unfold checkInstantiate at hc
  simp only [bind_eq_ok, guard_eq_ok, not_lt] at hc
  obtain ⟨_, -, _, -, -, _, hval, _, -, hfee, -⟩ := hc
  show FeeWithin config
  rw [FeeWithin, hparams, hlimits]
  exact ⟨hfee, (validateLimits_ok hval).1⟩

/-- A message moves the fee below the ceiling, and the ceiling not at all. -/
theorem Reconfigured.feeWithin {c c' : Config} {msg : ExecuteMsg} (hr : Reconfigured c msg c')
    (h : FeeWithin c) : FeeWithin c' := by
  cases hr with
  | same => exact h
  | bound token htok => exact h
  | paused p => exact h
  | fee bps hle => exact ⟨hle, h.2⟩

theorem migration_le : migrationMaxPerformanceFeeBps ≤ maxPerformanceFeeBps := by decide

/-- **One call.** From a fee within the ceiling, the next is too unless the call is an upgrade at a
fee above the ceiling that it installs. -/
theorem upgradeFits_iff (hB : Booked st) (h : FeeWithin st.config) (hs : Step st e st') :
    UpgradeFits st e ↔ FeeWithin st'.config := by
  obtain ⟨call, resp⟩ := e
  cases call with
  | migrate =>
    obtain ⟨rfl, -⟩ := migrate_ok hs
    exact ⟨fun hfit => ⟨hfit rfl, migration_le⟩, fun hwithin _ => hwithin.1⟩
  | execute deps env info msg => exact iff_of_true nofun ((execute_config hB hs).feeWithin h)

/-- The ceiling never leaves the code's own bound. -/
theorem Reachable.ceiling_le (h : Reachable st) :
    st.config.limits.maxPerformanceFeeBps ≤ maxPerformanceFeeBps := by
  refine (h.inv (P := fun st => Booked st ∧
    st.config.limits.maxPerformanceFeeBps ≤ maxPerformanceFeeBps) ?_ ?_).2
  · exact fun st hi => ⟨hi.booked, hi.feeWithin.2⟩
  · rintro st ⟨call, resp⟩ st' ⟨hB, hle⟩ hs
    refine ⟨(step_refines hB hs).1, ?_⟩
    cases call with
    | migrate =>
      obtain ⟨rfl, -⟩ := migrate_ok hs
      exact migration_le
    | execute deps env info msg => exact (execute_config hB hs).limits ▸ hle

/-- **The fee a compound charges** is within what the ceiling would have it charge. -/
theorem Compounded.fee_le_ceiling {deps : Deps} {env : Env} {limit : Option ℕ}
    (c : Compounded deps env limit st) (h : FeeWithin st.config) : ∃ assets,
    c.fee.val = feeShares c.harvested.val st.config.params.performanceFeeBps assets
      st.totals.totalSupply.val ∧
    c.fee.val ≤ feeShares c.harvested.val st.config.limits.maxPerformanceFeeBps assets
      st.totals.totalSupply.val := by
  refine ⟨_, c.fee_val, ?_⟩
  rw [c.fee_val]
  exact feeShares_mono _ _ h.1 (h.2.trans_lt (by decide))

/-- **The fee ceiling.** Along a run from an instantiation the fee is within the ceiling in every
state if and only if every upgrade is made at a fee within the ceiling that it installs; the
ceiling is within the code's own in every state, and where the fee is within it, so is what a
compound charges. -/
theorem fee_ceiling_iff (hi : Instantiated st₀) (hr : Run Step st₀ h st) :
    (Run (Guarded Step UpgradeFits) st₀ h st ↔
      FeeWithin st₀.config ∧ Run (fun s e t => Step s e t ∧ FeeWithin t.config) st₀ h st) ∧
    st.config.limits.maxPerformanceFeeBps ≤ maxPerformanceFeeBps ∧
    (Run (Guarded Step UpgradeFits) st₀ h st → ∀ deps env limit (c : Compounded deps env limit st),
      ∃ assets, c.fee.val = feeShares c.harvested.val st.config.params.performanceFeeBps assets
          st.totals.totalSupply.val ∧
        c.fee.val ≤ feeShares c.harvested.val st.config.limits.maxPerformanceFeeBps assets
          st.totals.totalSupply.val) := by
  have hiff : Run (Guarded Step UpgradeFits) st₀ h st ↔
      Run (fun s e t => Step s e t ∧ FeeWithin t.config) st₀ h st :=
    Run.guarded_iff (I := fun s => Booked s ∧ FeeWithin s.config) ⟨hi.booked, hi.feeWithin⟩
      (fun s e t hs hst ht => ⟨(step_refines hs.1 hst).1, ht⟩)
      fun s e t hs hst => upgradeFits_iff hs.1 hs.2 hst
  refine ⟨hiff.trans (and_iff_right hi.feeWithin).symm, Reachable.ceiling_le ⟨st₀, h, hi, hr⟩, ?_⟩
  intro hg deps env limit c
  exact c.fee_le_ceiling
    ((hiff.1 hg).inv (P := fun s => FeeWithin s.config) hi.feeWithin fun _ _ _ _ hst => hst.2)

/-! ## An upgrade below the fee -/

/-- An instantiation and an upgrade, with the storages they leave. -/
def devUpgrade (msg : InstantiateMsg) : Option (Storage × Storage × Response) :=
  (instantiate (devView 0 []) devWorld.env ⟨"deployer", []⟩ msg).toOption.bind fun r =>
    (migrate r.1).toOption.map fun r' => (r.1, r')

theorem devUpgrade_ok {msg : InstantiateMsg} {r : Response} (h : devUpgrade msg = some (st, st', r)) :
    Instantiated st ∧ Step st (.migrate, r) st' := by
  obtain ⟨⟨s, resp⟩, hi, h⟩ := Option.bind_eq_some_iff.1 h
  obtain ⟨⟨s', resp'⟩, hm, h⟩ := Option.map_eq_some_iff.1 h
  simp only [Prod.mk.injEq] at h
  obtain ⟨rfl, rfl, rfl⟩ := h
  exact ⟨⟨_, _, _, _, _, toOption_eq_some.1 hi⟩, toOption_eq_some.1 hm⟩

/-- An instantiation with a ceiling of 20% and a fee of 18%. -/
def devDear : InstantiateMsg :=
  { devInit with limits := ⟨2000, 2500⟩, params := { devParams with performanceFeeBps := 1800 } }

/-- The upgrade installs a ceiling of 15% under the fee of 18%. -/
theorem upgrade_undercuts_fee : ¬ ∀ st, Reachable st → FeeWithin st.config := by
  have hrun : (devUpgrade devDear).map (fun r => decide (r.2.1.config.params.performanceFeeBps ≤
      r.2.1.config.limits.maxPerformanceFeeBps)) = some false := by decide +kernel
  obtain ⟨⟨st, st', r⟩, hd, hlt⟩ := Option.map_eq_some_iff.1 hrun
  obtain ⟨hi, hs⟩ := devUpgrade_ok hd
  exact fun hall => of_decide_eq_false hlt (hall st' ⟨st, _, hi, .single hs⟩).1

/-- An upgrade at a fee of 8%. -/
theorem fee_ceiling_iff_upgrade : ∃ st st' r, devUpgrade devInit = some (st, st', r) ∧
    Run (fun s e t => Step s e t ∧ FeeWithin t.config) st [(.migrate, r)] st' := by
  have hrun : (devUpgrade devInit).map (fun r => decide (r.1.config.params.performanceFeeBps ≤
      migrationMaxPerformanceFeeBps)) = some true := by decide +kernel
  obtain ⟨⟨st, st', r⟩, hd, hle⟩ := Option.map_eq_some_iff.1 hrun
  obtain ⟨hi, hs⟩ := devUpgrade_ok hd
  exact ⟨st, st', r, hd,
    ((fee_ceiling_iff hi (.single hs)).1.1 (.single ⟨hs, fun _ => of_decide_eq_true hle⟩)).2⟩

end LstCore
