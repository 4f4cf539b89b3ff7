import LstCore.Proof.Slots

/-!
# The cached totals mirror the set

* `Mirrored`: the cached stake and the cached rewards are the sums over the validator set.
* `step_mirrored`: every call keeps it.
* `Reachable.mirrored`: it holds in every reachable storage.
-/

namespace LstCore

open Lib

variable {deps : Deps} {env : Env} {info : MessageInfo} {st st' st₁ : Storage} {resp : Response}

/-- **The cached totals are the sums over the set.** -/
structure Mirrored (st : Storage) : Prop where
  bonded : st.totals.totalBonded.val = total (·.bonded) st.validators
  pending : st.totals.pendingRewards.val = total (·.pendingRewards) st.validators

/-- Sums and totals that are both as they were. -/
theorem Mirrored.frame (h : Mirrored st)
    (hb : st'.totals.totalBonded = st.totals.totalBonded)
    (hp : st'.totals.pendingRewards = st.totals.pendingRewards)
    (hb' : total (·.bonded) st'.validators = total (·.bonded) st.validators)
    (hp' : total (·.pendingRewards) st'.validators = total (·.pendingRewards) st.validators) :
    Mirrored st' :=
  ⟨by rw [hb, hb', h.bonded], by rw [hp, hp', h.pending]⟩

/-- The stake of a mirrored storage is a number of 128 bits. -/
theorem Mirrored.total_lt (h : Mirrored st) : total (·.bonded) st.validators < 2 ^ 128 := by
  rw [← h.bonded]
  exact st.totals.totalBonded.isLt

theorem refreshTotals_mirrored (h : refreshTotals deps env st = .ok st') : Mirrored st' := by
  obtain ⟨-, -, tb, pr, ts, htb, hpr, -, rfl⟩ := refreshTotals_eq_ok.1 h
  exact ⟨htb, hpr⟩

theorem acceptDeposit_mirrored {deposit shares : Uint128} {messages : List CosmosMsg}
    (h : acceptDeposit deps env info st = .ok (st', deposit, shares, messages)) : Mirrored st' := by
  obtain ⟨d, rfl, -⟩ := acceptDeposit_ok h
  have hm := refreshTotals_mirrored d.refreshed
  obtain ⟨hb, hp⟩ := total_placeStake d.placed
  exact ⟨by simp only [Deposited.next, d.bonded_val, hb, hm.bonded],
    by simp only [Deposited.next, hp, ← hm.pending]⟩

theorem requestWithdrawal_mirrored {fromAddr : String} {amount owed : Uint128} {msg : Option Binary}
    {w : UnbondWindow} {token : ContractInfo}
    (h : requestWithdrawal deps env info fromAddr amount msg st = .ok (st', w, owed, token)) :
    Mirrored st' := by
  obtain ⟨st₁, -, -, -, -, hprice, hj⟩ := requestWithdrawal_ok h
  obtain ⟨pool, hpool, -⟩ := priceWithdrawal_eq_ok.1 hprice
  obtain ⟨u, oo, -, -, -, hst⟩ := joinWindow_ok hj
  exact (refreshTotals_mirrored (pricingPool_eq_ok.1 hpool).1).frame (by rw [hst]) (by rw [hst])
    (by rw [hst]) (by rw [hst])

theorem Mirrored.closesFrom (h : Mirrored st) (hc : ClosesFrom st st₁) : Mirrored st₁ := by
  cases hc with
  | advance => exact h
  | deposit hd => exact acceptDeposit_mirrored hd
  | receive hr => exact requestWithdrawal_mirrored hr

/-- What closing undelegates leaves the set and the cached stake together. -/
theorem Mirrored.closing {closing : Closing} {w : UnbondWindow} (h : Mirrored st) (hS : Slotted st)
    (hw : st.windows.lookup st.openWindow = some w) (hopen : w.state = .open)
    (hdue : w.closesAt ≤ env.time) (hc : closeOpenWindow env st = .ok (st', closing)) :
    Mirrored st' := by
  obtain ⟨used, hund, -⟩ := closeOpenWindow_ok hw hopen hdue hc
  generalize hvs : st'.validators = vs at hund
  generalize hts : st'.totals = ts at hund
  generalize closing.messages = messages at hund
  cases hund with
  | nothing hz => exact h.frame (by rw [hts]) (by rw [hts]) (by rw [hvs]) (by rw [hvs])
  | issued hz hplan hissue hou =>
    obtain ⟨hd, hsum⟩ := Validators.planUndelegation_ok hplan
    have hb := hS.bounded
    obtain ⟨-, -, -, -, -, -, htb, htp, -⟩ := issueLegs_ok
      (by simp only [chainMaxUnbondEntries, u8Max] at hb ⊢; omega) _ _ _ hissue
      (by rw [← addresses_eq]; exact hS.distinct) hd
    have h1 := h.bonded
    have h2 := h.pending
    constructor
    · rw [hvs, hts]
      simp only [Word.val_satSub] at htb ⊢
      omega
    · rw [hvs, hts]
      simp only at htp ⊢
      omega

theorem Mirrored.overdue {messages : List CosmosMsg} (h : Mirrored st) (hS : Slotted st)
    (hc : closeWindowIfOverdue env st = .ok (st', messages)) : Mirrored st' := by
  rcases closeWindowIfOverdue_ok hc with ⟨rfl, -⟩ | ⟨w, closing, hw, hopen, hdue, hc, -⟩
  · exact h
  · exact h.closing hS hw hopen hdue hc

theorem Mirrored.marking {now limit : ℕ} {balance : Uint128} {rets : List (ℕ × Uint128)}
    (h : Mirrored st) (hM : Marking now limit balance st st' rets) : Mirrored st' := by
  refine h.frame (by rw [hM.frame]) (by rw [hM.frame]) ?_ ?_
  all_goals
    rw [hM.frame]
    exact total_release (fun _ _ => rfl) _ _

/-- **Every call keeps the cached totals at the sums over the set.** -/
theorem step_mirrored {e : Call × Response} (h : Mirrored st) (hB : Booked st) (hS : Slotted st)
    (hs : Step st e st') : Mirrored st' := by
  obtain ⟨call, resp⟩ := e
  cases call with
  | migrate =>
    obtain ⟨rfl, -⟩ := migrate_ok hs
    exact h.frame rfl rfl rfl rfl
  | execute deps env info msg =>
    cases msg with
    | deposit =>
      obtain ⟨st₁, _, _, _, _, ha, hc, -⟩ := executeDeposit_ok hs
      exact (h.closesFrom (.deposit ha)).overdue (hS.closesFrom (.deposit ha)) hc
    | receive sender fromAddr amount msg =>
      obtain ⟨st₁, _, _, _, _, hr, hc, -⟩ := executeReceive_ok hs
      exact (h.closesFrom (.receive hr)).overdue (hS.closesFrom (.receive hr)) hc
    | claimMatured windowIds =>
      obtain ⟨_, _, st₁, _, _, -, hM, -, hP, -⟩ := executeClaimMatured_ok hB hs
      exact (h.marking hM).frame (by rw [hP.frame]) (by rw [hP.frame]) (by rw [hP.frame])
        (by rw [hP.frame])
    | compound limit =>
      obtain ⟨c, rfl, -⟩ := executeCompound_ok hs
      -- a sweep adds the set up again
      exact ⟨c.bonded_val, c.pending_val⟩
    | advanceWindow =>
      obtain ⟨w, closing, hw, hopen, hdue, hc, -⟩ := executeAdvanceWindow_ok hs
      exact h.closing hS hw hopen hdue hc
    | collectMatured limit =>
      obtain ⟨ids, hmat, -⟩ := executeCollectMatured_ok hs
      obtain ⟨_, _, -, hM, -⟩ := matureDueWindows_ok hB hmat
      exact h.marking hM
    | sync limit =>
      obtain ⟨s, rfl, -⟩ := executeSync_ok hs
      exact ⟨s.bonded_val, s.pending_val⟩
    | manager m =>
      -- a plan moves stake inside the set, and new entries have none
      obtain ⟨_, -, -, -, hb, hp⟩ := executeManager_slots hs
      rcases executeManager_ok hs with ⟨_, -, -, rfl, -⟩ | ⟨_, -, -, rfl, -⟩ | ⟨_, _, -, -, rfl, -⟩ <;>
        exact h.frame rfl rfl hb hp
    | setPaused paused =>
      obtain ⟨rfl, -⟩ := executeSetPaused_ok hs
      exact h.frame rfl rfl rfl rfl
    | bootstrap tokenAddress tokenCodeHash =>
      obtain ⟨s, rfl, -⟩ := executeBootstrap_ok hs
      obtain ⟨hb, hp⟩ := total_placeStake s.placed
      exact ⟨by simp only [Seeded.next, s.bonded_val, hb, h.bonded],
        by simp only [Seeded.next, hp, ← h.pending]⟩

theorem Instantiated.mirrored (h : Instantiated st) : Mirrored st := by
  obtain ⟨deps, env, info, msg, resp, hi⟩ := h
  obtain ⟨config, -, -, -, -, -, rfl⟩ := instantiate_ok hi
  have hz : ∀ f : ValidatorEntry → Uint128, (∀ v, f (Validators.newEntry v) = 0) →
      total f (initialValidatorSet msg.validators) = 0 := by
    intro f hf
    simp [total, initialValidatorSet, Function.comp_def, hf]
  exact ⟨(hz _ fun _ => rfl).symm, (hz _ fun _ => rfl).symm⟩

/-- **The cached totals are the sums over the set in every reachable storage.** -/
theorem Reachable.mirrored (h : Reachable st) : Mirrored st := by
  have := h.inv (P := fun st => Mirrored st ∧ Booked st ∧ Slotted st)
    (fun st hi => ⟨hi.mirrored, hi.booked, (show Reachable st from ⟨_, [], hi, .nil⟩).slotted⟩)
    fun st e st' hP hs => ⟨step_mirrored hP.1 hP.2.1 hP.2.2 hs, (step_refines hP.2.1 hs).1,
      step_slotted hP.2.2 hP.2.1 hs⟩
  exact this.1

end LstCore
