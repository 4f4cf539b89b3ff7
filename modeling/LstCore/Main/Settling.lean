import LstCore.Proof.World
import LstCore.Queue.Settling

/-!
# Which fully claimed windows settle

A window settles when the payments on its claims reach what came back. The payments are
rounded down, so they need not reach it (`fully_claimed_settles`).
-/

namespace LstCore

open Lib

variable {st : Storage} {id : ℕ} {w : UnbondWindow}

/-- No claim against a window has a payment left to receive. -/
def FullyClaimed (st : Storage) (id : ℕ) (w : UnbondWindow) : Prop :=
  ∀ u c, st.claims.lookup (u, id) = some c →
    c.claimed = true ∨ Windows.payoutForClaim w c.scrtOwed = .ok 0

/-- A window came back: it owes something, and it is matured, or settled after it was. -/
structure CameBack (st : Storage) (id : ℕ) (w : UnbondWindow) : Prop where
  lookup : st.windows.lookup id = some w
  owes : w.scrtOwed ≠ 0
  state : w.state = .matured ∨ w.state = .settled

theorem Reachable.settling (h : Reachable st) : st.queue.Settling := by
  refine (h.inv (P := fun st => Booked st ∧ st.queue.Settling) ?_ ?_).2
  · intro st hi
    refine ⟨hi.booked, ?_⟩
    obtain ⟨deps, env, info, msg, resp, hi⟩ := hi
    obtain ⟨config, -, -, -, -, -, rfl⟩ := instantiate_ok hi
    have hw : ∀ i v, (initialStorage env config msg.validatorAllowlist msg.validators).queue.windows.lookup
        i = some v → v.state = .open := by
      intro i v hl
      obtain ⟨-, rfl⟩ := (lookup_initial _ _ _ _ i v).1 hl
      rfl
    -- the one window there is is open
    exact ⟨fun i v hl hs => by simp [hw i v hl] at hs, fun i v hl hs => by simp [hw i v hl] at hs⟩
  · rintro st e st' ⟨hB, hT⟩ hs
    obtain ⟨hB', hist, hr, -⟩ := step_refines hB hs
    exact ⟨hB', hT.run hB.shape hB.claims hr⟩

/-- **Fully claimed windows settle** when the rounding took nothing: a window that came back and
has no payment left to make is settled and off the active list exactly when every claim's share
of what came back is a whole number of uscrt, and one of the claims was paid. -/
theorem fully_claimed_settles (h : Reachable st) (hc : CameBack st id w)
    (hleft : FullyClaimed st id w) : (w.state = .settled ∧ id ∉ st.activeWindows) ↔
      (∀ u c, st.claims.lookup (u, id) = some c →
        w.scrtOwed.val ∣ c.scrtOwed.val * w.payable.val) ∧
      ∃ u c, st.claims.lookup (u, id) = some c ∧ c.claimed = true := by
  have hB := h.booked
  have hw : st.queue.windows.lookup id = some w := hc.lookup
  have hworth : ∀ u c, st.queue.claims.lookup (u, id) = some c → c.claimed = true ∨ worth w c = 0 :=
    fun u c hl => (hleft u c hl).imp_right fun hp => by
      rw [worth, ← payoutForClaim_eq_ok.1 hp, Word.val_zero]
  have hiff := Queue.settled_iff hB.shape hB.claims h.settling hw hc.state hc.owes hworth
  constructor
  · exact fun hs => hiff.1 hs.1
  · intro hcond
    have hs := hiff.2 hcond
    refine ⟨hs, fun hact => ?_⟩
    -- what is listed is in flight or matured
    obtain ⟨v, hv, ha⟩ := (hB.shape.active id).1 hact
    rw [hw, Option.some.injEq] at hv
    subst hv
    simp [UnbondWindow.Active, hs] at ha

/-! ## An odd uscrt -/

/-- What the chain reports once the first of two equal withdrawals has been burned. -/
def devShared : Deps := devView (Uint128.new 90000000)
  [("validatorone", Uint128.new 10000000, 0), ("validatortwo", Uint128.new 100000000, 0)]

/-- Two users withdraw 20 SCRT each, one uscrt less comes back, and both claim. -/
def devOdd : List Event :=
  [devBootstrap, devDeposit, devTx devBonded "token" 0 (devUnbond "user" (Uint128.new 20000000)),
    devTx devShared "token" 0 (devUnbond "friend" (Uint128.new 20000000)),
    .time (devStart + 5 * 86400), devTx devShared "keeper" 0 .advanceWindow,
    .time (devStart + 26 * 86400), .credit 0 (Uint128.new 39999999),
    devTx devShared "user" 0 (.claimMatured none), devTx devShared "friend" 0 (.claimMatured none)]

/-- Whether every claim against a window is marked claimed. -/
def allClaimed (st : Storage) (id : ℕ) : Bool :=
  st.claims.entries.all fun e => e.1.2 ≠ id || e.2.claimed

theorem FullyClaimed.of_all (h : allClaimed st id = true) : FullyClaimed st id w := by
  intro u c hl
  have := List.all_eq_true.1 h _ (AList.mem_lookup_iff.1 hl)
  exact .inl (by simpa using this)

set_option maxRecDepth 10000 in
/-- Each of the two is paid 19,999,999 uscrt, so one is left that nobody can claim. -/
theorem odd_window_lingers : ¬ ∀ (st : Storage) (id : ℕ) (w : UnbondWindow), Reachable st →
    CameBack st id w → FullyClaimed st id w → w.state = .settled ∧ id ∉ st.activeWindows := by
  have hrun : (devOdd.foldlM World.step devWorld).map (fun v =>
      ((v.store.windows.lookup 0).map fun w => (decide (w.scrtOwed ≠ 0), w.state),
        allClaimed v.store 0)) = some (some (true, .matured), true) := by decide +kernel
  obtain ⟨v, hv, hs⟩ := Option.map_eq_some_iff.1 hrun
  simp only [Prod.mk.injEq, Option.map_eq_some_iff, decide_eq_true_eq] at hs
  obtain ⟨⟨w, hw, hne, hm⟩, hall⟩ := hs
  intro hsettle
  have := hsettle v.store 0 w (World.replay_reachable devWorld_fresh hv) ⟨hw, hne, .inl hm⟩
    (.of_all hall)
  simp [hm] at this

set_option maxRecDepth 10000 in
theorem fully_claimed_settles_claimed : ∃ (st : Storage) (w : UnbondWindow), Reachable st ∧
    CameBack st 0 w ∧ FullyClaimed st 0 w ∧ w.state = .settled ∧
    (∀ u c, st.claims.lookup (u, 0) = some c → w.scrtOwed.val ∣ c.scrtOwed.val * w.payable.val) ∧
    ∃ u c, st.claims.lookup (u, 0) = some c ∧ c.claimed = true := by
  have hrun : (devClaim.foldlM World.step devWorld).map (fun v =>
      ((v.store.windows.lookup 0).map fun w => (decide (w.scrtOwed ≠ 0), w.state),
        allClaimed v.store 0, v.store.activeWindows)) =
      some (some (true, .settled), true, []) := by decide +kernel
  obtain ⟨v, hv, hs⟩ := Option.map_eq_some_iff.1 hrun
  simp only [Prod.mk.injEq, Option.map_eq_some_iff, decide_eq_true_eq] at hs
  obtain ⟨⟨w, hw, hne, hset⟩, hall, hact⟩ := hs
  have hr := World.replay_reachable devWorld_fresh hv
  have hc : CameBack v.store 0 w := ⟨hw, hne, .inr hset⟩
  exact ⟨v.store, w, hr, hc, .of_all hall, hset,
    (fully_claimed_settles hr hc (.of_all hall)).1 ⟨hset, by simp [hact]⟩⟩

end LstCore
