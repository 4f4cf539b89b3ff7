import LstCore.Proof.Pricing
import LstCore.Proof.Prompt

/-!
# The price while returns wait to be collected

What has come back and is not marked yet is in the balance the pool counts, and among no
liability it subtracts. So collecting leaves the price alone when nothing is due, and
otherwise only when the pool has no assets to lose (`collect_price_neutral_iff`).
-/

namespace LstCore

open Lib World

variable {w w' : World} {view : Deps} {t : Tx} {limit : Option ℕ}

namespace World

/-- The pool's assets and supply, as they are handed to pricing. -/
def quote (w : World) (view : Deps) : Exec (Uint128 × Uint128) :=
  poolQuote (w.deps view w.balance) w.env w.store

/-- The shares a deposit mints, once it has brought the balance to `b`. -/
def sharesFor (w : World) (view : Deps) (deposit b : Uint128) : Exec Uint128 :=
  (priceDeposit (w.deps view b) w.env deposit w.store).map (·.2.2)

/-- The SCRT a withdrawal of shares is owed. -/
def owedFor (w : World) (view : Deps) (shares : Uint128) : Exec Uint128 :=
  (priceWithdrawal (w.deps view w.balance) w.env shares w.store).map (·.2)

/-- The windows that are due. -/
def due (w : World) : List ℕ := w.store.activeWindows.filter fun id => dueIn w.store.windows w.now id

/-- What the due windows owe together. -/
def owedDue (w : World) : ℕ := (w.due.map (owedIn w.store.windows)).sum

/-- Going from `w` to `w'` leaves the pool's assets and supply alone, and with them every price. -/
def Neutral (view : Deps) (w w' : World) : Prop :=
  ∀ a s, w.quote view = .ok (a, s) → w'.quote view = .ok (a, s) ∧
    (∀ deposit b b' : Uint128, b.val = w.balance.val + deposit.val →
      b'.val = w'.balance.val + deposit.val →
      w'.sharesFor view deposit b' = w.sharesFor view deposit b) ∧
    ∀ shares, w'.owedFor view shares = w.owedFor view shares

theorem sharesFor_of_quote {a s deposit b : Uint128} (h : w.quote view = .ok (a, s))
    (hb : b.val = w.balance.val + deposit.val) :
    w.sharesFor view deposit b = quotedShares deposit a s :=
  priceDeposit_of_quote (w.deps_balance view w.balance) h rfl rfl hb (w.deps_balance view b)

/-- Prices are the same where the quote is. -/
theorem neutral_iff : Neutral view w w' ↔
    ∀ a s, w.quote view = .ok (a, s) → w'.quote view = .ok (a, s) := by
  refine forall₃_congr fun a s hq => ⟨fun h => h.1, fun hq' => ⟨hq', ?_, ?_⟩⟩
  · intro deposit b b' hb hb'
    rw [sharesFor_of_quote hq hb, sharesFor_of_quote hq' hb']
  · intro shares
    exact (priceWithdrawal_of_quote hq' shares).trans (priceWithdrawal_of_quote hq shares).symm

/-- A due window owes something. -/
theorem owedDue_eq_zero (hB : Booked w.store) : w.owedDue = 0 ↔ w.due = [] := by
  constructor
  · intro hz
    by_contra hne
    obtain ⟨id, hid⟩ := List.exists_mem_of_ne_nil _ hne
    obtain ⟨v, hv, hs, -⟩ := dueIn_iff.1 (List.mem_filter.1 hid).2
    have hle := List.single_le_sum (fun _ _ => Nat.zero_le _) _
      (List.mem_map_of_mem (f := owedIn w.store.windows) hid)
    have hzero : owedIn w.store.windows id = 0 := by unfold owedDue at hz; omega
    rw [owedIn_eq hv] at hzero
    exact (hB.shape.ok _ v hv).owed_ne_zero (.inl hs) (Word.eq_zero_iff.2 hzero)
  · intro hnil
    simp [owedDue, hnil]

end World

/-- **A collection that takes every due window**: it succeeds, and moves what they owe into
what the matured windows owe. -/
theorem Current.collect (h : Current w) (hmsg : t.msg = .collectMatured limit)
    (hfunds : t.info.funds = []) (hcover : w.due.length ≤ limit.getD defaultSyncLimit) :
    ∃ w' rets, w.tx t = some w' ∧ w'.balance = w.balance ∧ w'.env = w.env ∧
      Marking w.now (limit.getD defaultSyncLimit) w.balance w.store w'.store rets ∧
      w'.store.totals.scrtOwedMatured.val = w.store.totals.scrtOwedMatured.val + w.owedDue := by
  have hB := h.filed.solvent.booked
  have hb : w.funded t.info = some w.balance := by
    rw [funded_eq_some, hfunds]
    rfl
  obtain ⟨st', ids, hmat⟩ := matureDueWindows_total hB (limit.getD defaultSyncLimit)
    (w.deps_balance t.view w.balance)
  obtain ⟨b, rets, hb', hM, -⟩ := matureDueWindows_ok hB hmat
  rw [w.deps_balance, Except.ok.injEq] at hb'
  subst hb'
  have hex : execute (w.deps t.view w.balance) w.env t.info t.msg w.store =
      .ok (st', ⟨[], some (.collectMatured ids)⟩) := by
    rw [hmsg]
    show executeCollectMatured _ _ _ _ = _
    unfold executeCollectMatured
    rw [hmat]
    rfl
  have htx : w.tx t = some { w with store := st', balance := w.balance, returns := w.fileReturn [] } := by
    unfold World.tx
    rw [call_eq_some.2 ⟨hb, hex⟩]
    rfl
  -- the limit covers every due window, and each of them has been credited
  have hmarks : w.marks t = w.due := by
    unfold World.marks marksOf
    rw [hmsg]
    exact List.take_of_length_le (hcover.trans (le_max_left _ _))
  have hids : rets.map (·.1) = w.due :=
    hM.due.trans (List.take_of_length_le (hcover.trans (le_max_left _ _)))
  have hcov := h.full.covers h.filed h.funded (h.marks_credited t)
  unfold World.Covers at hcov
  rw [hmarks, hfunds] at hcov
  refine ⟨_, rets, htx, rfl, rfl, hM, ?_⟩
  have hsum := hM.sum_amounts
  rw [hids] at hsum
  have hamount : amountIn w.store.config.bondedDenom [] = 0 := rfl
  show st'.totals.scrtOwedMatured.val = _
  rw [hM.owedMatured, hsum]
  unfold owedDue
  omega

/-- **When collecting leaves the price alone.** Returns are credited in full as soon as they are
complete. In every reachable world a collection that brings no coins along and takes every due
window succeeds, and it leaves the pool's assets and supply, and so the shares of every deposit and what every
withdrawal is owed, as they were, if and only if no window is due or the pool has no assets
(and its liabilities still add up). -/
theorem collect_price_neutral_iff (hr : Reaches promptStep w) (view : Deps)
    (hmsg : t.msg = .collectMatured limit) (hfunds : t.info.funds = [])
    (hcover : w.due.length ≤ limit.getD defaultSyncLimit) :
    ∃ w', w.tx t = some w' ∧ (Neutral view w w' ↔ w.due = [] ∨
      ∀ a s, w.quote view = .ok (a, s) → a = 0 ∧ w.store.totals.scrtOwedOpen.val +
        w.store.totals.scrtOwedMatured.val + w.owedDue < 2 ^ 128) := by
  have hC := hr.current
  obtain ⟨w', rets, htx, hbal, henv, hM, howed⟩ := hC.collect hmsg hfunds hcover
  refine ⟨w', htx, ?_⟩
  have hopen : w'.store.totals.scrtOwedOpen = w.store.totals.scrtOwedOpen := by rw [hM.frame]
  have hden : w'.store.config.bondedDenom = w.store.config.bondedDenom := by rw [hM.frame]
  have hself : w'.self = w.self := congrArg Env.contract henv
  have hdeps : w'.deps view w'.balance = w.deps view w.balance := by
    unfold World.deps
    rw [hself, hden, hbal]
  -- the quotes differ only in what the matured windows owe
  have hquote' : ∀ {a s}, w'.quote view = .ok (a, s) ↔ ∃ tb pr,
      Backing (w.deps view w.balance) w.env w.store tb pr s ∧
      w.store.totals.scrtOwedOpen.val + w.store.totals.scrtOwedMatured.val + w.owedDue < 2 ^ 128 ∧
      tb.val + pr.val + w.balance.val < 2 ^ 128 ∧
      a.val = tb.val + pr.val + w.balance.val -
        (w.store.totals.scrtOwedOpen.val + w.store.totals.scrtOwedMatured.val + w.owedDue) := by
    intro a s
    unfold World.quote
    rw [poolQuote_eq_ok, hdeps, henv, hden, hopen, howed, ← Nat.add_assoc]
    simp only [hM.backing, deps_balance, Except.ok.injEq, exists_and_left, exists_eq_left']
  have hquote : ∀ {a s}, w.quote view = .ok (a, s) ↔ ∃ tb pr,
      Backing (w.deps view w.balance) w.env w.store tb pr s ∧
      w.store.totals.scrtOwedOpen.val + w.store.totals.scrtOwedMatured.val < 2 ^ 128 ∧
      tb.val + pr.val + w.balance.val < 2 ^ 128 ∧
      a.val = tb.val + pr.val + w.balance.val -
        (w.store.totals.scrtOwedOpen.val + w.store.totals.scrtOwedMatured.val) := by
    intro a s
    unfold World.quote
    rw [poolQuote_eq_ok]
    simp only [deps_balance, Except.ok.injEq, exists_and_left, exists_eq_left']
  have hz := World.owedDue_eq_zero hC.filed.solvent.booked
  rw [neutral_iff]
  constructor
  · intro hn
    by_cases hdue : w.due = []
    · exact .inl hdue
    · have hpos : w.owedDue ≠ 0 := fun h => hdue (hz.1 h)
      refine .inr fun a s hq => ?_
      -- a positive debt more and the same assets: both are cut off at zero
      obtain ⟨tb', pr', hB', hlt', -, ha'⟩ := hquote'.1 (hn a s hq)
      obtain ⟨tb, pr, hB, hlt, -, ha⟩ := hquote.1 hq
      have htb := hB.bonded.trans hB'.bonded.symm
      have hpr := hB.pending.trans hB'.pending.symm
      exact ⟨Word.eq_zero_iff.2 (by omega), hlt'⟩
  · rintro (hdue | hzero) a s hq
    · have := hz.2 hdue
      obtain ⟨tb, pr, hB, hlt, hlt', ha⟩ := hquote.1 hq
      exact hquote'.2 ⟨tb, pr, hB, by omega, hlt', by omega⟩
    · obtain ⟨ha0, hlt⟩ := hzero a s hq
      obtain ⟨tb, pr, hB, -, hlt', ha⟩ := hquote.1 hq
      rw [Word.eq_zero_iff] at ha0
      exact hquote'.2 ⟨tb, pr, hB, hlt, hlt', by omega⟩

/-- The unbonding period has passed, and what was undelegated has come back. -/
def devDue : List Event := devClose ++ [.time (devStart + 26 * 86400)]

/-- The keeper collects. -/
def devCollectTx : Tx := ⟨devHalved, ⟨"keeper", []⟩, .collectMatured none⟩

set_option maxRecDepth 10000 in
/-- Before the 40 SCRT that are back have been collected, the pool of 70 SCRT counts 110: a
deposit of 11 SCRT mints 7 shares, and 11 just after. -/
theorem collect_moves_price : ∃ w w', Reaches promptStep w ∧
    w.tx devCollectTx = some w' ∧ w.due.length = 1 ∧
    w.quote devHalved = .ok (Uint128.new 110000000, Uint128.new 70000000) ∧
    w'.quote devHalved = .ok (Uint128.new 70000000, Uint128.new 70000000) ∧
    w.sharesFor devHalved (Uint128.new 11000000) (Uint128.new 51000000) =
      .ok (Uint128.new 7000000) ∧
    w'.sharesFor devHalved (Uint128.new 11000000) (Uint128.new 51000000) =
      .ok (Uint128.new 11000000) := by
  have hbefore : (devDue.foldlM promptStep devWorld).map (fun w => (w.due.length,
      (w.quote devHalved).toOption,
      (w.sharesFor devHalved (Uint128.new 11000000) (Uint128.new 51000000)).toOption)) =
      some (1, some (Uint128.new 110000000, Uint128.new 70000000), some (Uint128.new 7000000)) := by
    decide +kernel
  have hafter : ((devDue.foldlM promptStep devWorld).bind (·.tx devCollectTx)).map (fun w =>
      ((w.quote devHalved).toOption,
        (w.sharesFor devHalved (Uint128.new 11000000) (Uint128.new 51000000)).toOption)) =
      some (some (Uint128.new 70000000, Uint128.new 70000000), some (Uint128.new 11000000)) := by
    decide +kernel
  obtain ⟨w, hw, hq⟩ := Option.map_eq_some_iff.1 hbefore
  rw [hw, Option.bind_some] at hafter
  obtain ⟨w', hw', hq'⟩ := Option.map_eq_some_iff.1 hafter
  simp only [Prod.mk.injEq, toOption_eq_some] at hq hq'
  exact ⟨w, w', ⟨_, along_replay devWorld_fresh hw⟩, hw', hq.1, hq.2.1, hq'.1, hq.2.2, hq'.2⟩

set_option maxRecDepth 10000 in
/-- A collection with no window due leaves the price alone, and one with a window due of a pool with
assets does not. -/
theorem collect_price_neutral_iff_due :
    (∃ w w', devClose.foldlM promptStep devWorld = some w ∧ w.tx devCollectTx = some w' ∧
      Neutral devHalved w w') ∧
    ∃ w w', devDue.foldlM promptStep devWorld = some w ∧ w.tx devCollectTx = some w' ∧
      ¬ Neutral devHalved w w' := by
  have hnone : (devClose.foldlM promptStep devWorld).map (·.due.length) = some 0 := by decide +kernel
  have hone : (devDue.foldlM promptStep devWorld).map (fun w =>
      (w.due.length, (w.quote devHalved).toOption)) =
      some (1, some (Uint128.new 110000000, Uint128.new 70000000)) := by decide +kernel
  constructor
  · obtain ⟨w, hw, hdue⟩ := Option.map_eq_some_iff.1 hnone
    obtain ⟨w', htx, hiff⟩ := @collect_price_neutral_iff w devCollectTx none
      ⟨_, along_replay devWorld_fresh hw⟩ devHalved rfl rfl (hdue ▸ Nat.zero_le _)
    exact ⟨w, w', hw, htx, hiff.2 (.inl (List.length_eq_zero_iff.1 hdue))⟩
  · obtain ⟨w, hw, h⟩ := Option.map_eq_some_iff.1 hone
    obtain ⟨hdue, hquote⟩ := Prod.mk.inj h
    obtain ⟨w', htx, hiff⟩ := @collect_price_neutral_iff w devCollectTx none
      ⟨_, along_replay devWorld_fresh hw⟩ devHalved rfl rfl (by rw [hdue]; decide)
    refine ⟨w, w', hw, htx, fun hn => ?_⟩
    rcases hiff.1 hn with hempty | hzero
    · rw [hempty] at hdue
      cases hdue
    · exact absurd (hzero _ _ (toOption_eq_some.1 hquote)).1 (by decide)

end LstCore
