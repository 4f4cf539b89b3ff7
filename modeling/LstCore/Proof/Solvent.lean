import LstCore.Proof.Money
import LstCore.Proof.Passage

/-!
# Solvent worlds

* `Solvent`: the ledgers hold, and the balance covers what the matured windows have still to
  pay.
* `Solvent.step`: every event keeps it.
-/

namespace LstCore

open Lib

variable {w w' : World} {t : Tx} {e : Event}

theorem Undelegated.owedMatured {st : Storage} {v : UnbondWindow} {vs : List ValidatorEntry}
    {ts : TotalsCache} {used : List String} {messages : List CosmosMsg}
    (h : Undelegated st v vs ts used messages) : ts.scrtOwedMatured = st.totals.scrtOwedMatured := by
  cases h <;> rfl

/-- The ledgers hold and the matured windows are covered. -/
structure Solvent (w : World) : Prop where
  booked : Booked w.store
  slotted : Slotted w.store
  covered : w.store.totals.scrtOwedMatured.val ≤ w.balance.val

/-- A claim on a covered balance: what it pays is there, and what is left still covers. -/
theorem Solvent.claim (h : Solvent w) {b : Uint128} {store : Storage} {resp : Response}
    {ids : Option (List ℕ)} (hmsg : t.msg = .claimMatured ids)
    (hc : w.call t = some (b, store, resp)) :
    w.balance.val ≤ b.val ∧ ∃ u paid,
      resp.messages = [.bankSend u [⟨w.store.config.bondedDenom, paid⟩]] ∧
      store.totals.scrtOwedMatured.val + paid.val ≤ b.val := by
  obtain ⟨hf, he⟩ := World.call_eq_some.1 hc
  rw [World.funded_eq_some] at hf
  rw [hmsg] at he
  obtain ⟨b', rets, st₁, paid, hist, hb', hM, -, hP, -, hm⟩ := executeClaimMatured_ok h.booked he
  rw [World.deps_balance, Except.ok.injEq] at hb'
  subst hb'
  have hden : st₁.config.bondedDenom = w.store.config.bondedDenom := by rw [hM.frame]
  have h1 := hP.owed_left
  have h2 := hM.owedMatured
  have h3 := hM.sum_amounts
  have h4 := h.covered
  exact ⟨by omega, t.info.sender, paid, by rw [hm, hden], by omega⟩

/-- **Where the money of a transaction went.** `c` is what the balance is before the messages
run, without the funds that a deposit stakes at once. -/
theorem Solvent.ledger (h : Solvent w) {b : Uint128} {rets : List (ℕ × Uint128)}
    (hf : w.funded t.info = some b) (htk : Taken w.now t.msg.markLimit b w.store rets)
    (ht : w.tx t = some w') :
    ∃ c, w.balance.val ≤ c ∧
      w.store.totals.scrtOwedMatured.val + (rets.map (·.2.val)).sum ≤ c ∧
      w'.store.totals.scrtOwedMatured.val + c ≤
        w.store.totals.scrtOwedMatured.val + (rets.map (·.2.val)).sum + w'.balance.val := by
  obtain ⟨b', store, resp, till, hf', he, hrun, hw'⟩ := World.tx_ok ht
  rw [hf, Option.some.injEq] at hf'
  subst hf'
  rw [World.funded_eq_some] at hf
  have hcov := h.covered
  have hsum := congrArg List.sum htk.amounts
  -- no window is marked, and nothing but fresh funds is spent
  have hquiet : t.msg.markLimit = none → (rets.map (·.2.val)).sum = 0 ∧
      w.balance.val ≤ w'.balance.val := by
    intro hl
    rw [hl] at hsum
    exact ⟨hsum, tx_balance h.slotted ht fun ids hmsg => by
      simp [hmsg, ExecuteMsg.markLimit] at hl⟩
  -- the amounts of a marking are those taken, and they fit into the balance
  have hmark : ∀ {n st₁ rets₁}, t.msg.markLimit = some n → Marking w.now n b w.store st₁ rets₁ →
      st₁.totals.scrtOwedMatured.val =
        w.store.totals.scrtOwedMatured.val + (rets.map (·.2.val)).sum ∧
      w.store.totals.scrtOwedMatured.val + (rets.map (·.2.val)).sum ≤ b.val := by
    intro n st₁ rets₁ hl hM
    have hsum₁ := congrArg List.sum hM.taken.amounts
    rw [hl, ← hsum₁] at hsum
    rw [hM.owedMatured, hsum]
    have := hM.sum_amounts
    exact ⟨rfl, by omega⟩
  have hspent := run_spends hrun
  rw [show w'.store = store by rw [hw']]
  cases execute_effect h.booked h.slotted (w.deps_balance t.view b) he with
  | idle hl hi _ =>
    obtain ⟨hz, hbal⟩ := hquiet hl
    rw [hi.owedMatured, hz]
    exact ⟨w.balance.val, by omega, by omega, by omega⟩
  | closed hl hi _ _ hw hopen hdue hc _ =>
    obtain ⟨hz, hbal⟩ := hquiet hl
    obtain ⟨used, hund, -⟩ := closeOpenWindow_ok hw hopen hdue hc
    rw [hund.owedMatured, hi.owedMatured, hz]
    exact ⟨w.balance.val, by omega, by omega, by omega⟩
  | marked hl hM hm =>
    obtain ⟨howed, hle⟩ := hmark hl hM
    rw [hm, List.map_nil, List.sum_nil] at hspent
    have hbal : b.val ≤ w'.balance.val := by rw [hw']; exact hspent
    exact ⟨b.val, by omega, hle, by omega⟩
  | paid hl hM hP hm =>
    rename_i st₁ rets₁ u ids paid hist
    obtain ⟨howed, hle⟩ := hmark hl hM
    have hleft := hP.owed_left
    rw [hm, List.map_singleton, List.sum_singleton] at hspent
    have hbal : b.val ≤ w'.balance.val + paid.val := by
      rw [hw']
      exact hspent.trans (Nat.add_le_add_left spentBy_bankSend_le _)
    exact ⟨b.val, by omega, hle, by omega⟩

theorem Solvent.tx (h : Solvent w) (ht : w.tx t = some w') : Solvent w' := by
  obtain ⟨b, store, resp, till, hf, he, -, hw'⟩ := World.tx_ok ht
  have hst : w'.store = store := by rw [hw']
  have hstep : Step w.store (.execute (w.deps t.view b) w.env t.info t.msg, resp) store := he
  have hB' : Booked store := (step_refines h.booked hstep).1
  have hS' : Slotted store := step_slotted h.slotted h.booked hstep
  have heff := execute_effect h.booked h.slotted (w.deps_balance t.view b) he
  obtain ⟨rets, htk, -⟩ := heff.passage h.booked hB'
  obtain ⟨c, -, hfit, hleft⟩ := h.ledger hf htk ht
  exact ⟨hst ▸ hB', hst ▸ hS', by omega⟩

/-- **Every event keeps the matured windows covered.** -/
theorem Solvent.step (h : Solvent w) (hs : w.step e = some w') : Solvent w' := by
  cases e with
  | tx t => exact h.tx hs
  | migrate =>
    obtain ⟨resp, hm, hw⟩ := World.migrate_step hs
    obtain ⟨hst, -⟩ := migrate_ok hm
    have hstep : Step w.store (.migrate, resp) w'.store := hm
    refine ⟨(step_refines h.booked hstep).1, step_slotted h.slotted h.booked hstep, ?_⟩
    rw [hw, hst]
    exact h.covered
  | inflow amount =>
    obtain ⟨b, hb, rfl⟩ := World.inflow_step hs
    exact ⟨h.booked, h.slotted, by have := h.covered; simp only; omega⟩
  | credit id amount =>
    obtain ⟨r, b, -, -, -, hb, rfl⟩ := World.credit_ok hs
    exact ⟨h.booked, h.slotted, by have := h.covered; simp only; omega⟩
  | time now =>
    obtain ⟨-, -, rfl⟩ := World.time_step hs
    exact ⟨h.booked, h.slotted, h.covered⟩

theorem World.Fresh.solvent (hf : w.Fresh) : Solvent w := by
  have hi := hf.instantiated
  refine ⟨hi.booked, (show Reachable w.store from ⟨_, [], hi, .nil⟩).slotted, ?_⟩
  obtain ⟨-, -, view, info, msg, resp, hok⟩ := hf
  obtain ⟨config, -, -, -, -, -, hst⟩ := instantiate_ok hok
  rw [hst]
  exact Nat.zero_le _

end LstCore
