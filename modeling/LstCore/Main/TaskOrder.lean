import LstCore.Main.Reruns
import LstCore.Main.SlotAlerts

/-!
# The order of the tasks

Whether a transaction closes the open window depends on what stands before the `AdvanceWindow` in it:
a collect frees the slots that due windows hold, and a compound reads the stake again and adds what has
been earned. With both before it the window closes if what is delegated and earned covers what it owes,
and no transaction closes it otherwise (`best_order`).

* `Reaches.paced`: the contract of a reachable chain keeps its pace.
* `closes_iff`: when the open window can be closed, once nothing is due and the cache is the chain's.
* `runTask_stake`: what is delegated and earned is as much after a task as before.
-/

namespace LstCore

open Lib

namespace Chain

variable {c c' : Chain} {w : UnbondWindow} {store : Storage} {now : ℕ}

/-! ## Slots -/

/-- A block without entries is paced where its windows keep their times. -/
theorem paced_bare (hr : Reachable store) (hnow : now < u64Max)
    (ht : store.queue.Timed store.config.params.unbondingPeriodSecs
      store.config.params.unbondWindowSecs now) : Blocks.Paced ⟨store, now, []⟩ where
  reachable := hr
  short := hnow
  timed := ht
  created := fun _ he => absurd he List.not_mem_nil
  spaced := fun _ => Spaced.nil
  live := fun _ he => absurd he List.not_mem_nil
  few := fun _ => Nat.zero_le _

/-- **The contract of a chain keeps its pace.** -/
theorem Reaches.paced (hR : c.Reaches) : c.now < u64Max → Blocks.Paced ⟨c.store, c.now, []⟩ := by
  refine hR.inv (P := fun c => c.now < u64Max → Blocks.Paced ⟨c.store, c.now, []⟩) ?_ ?_
  · rintro c ⟨-, -, -, view, info, msg, resp, hi⟩ hnow
    exact Blocks.Fresh.paced ⟨rfl, hnow, c.deps view, c.env, info, msg, resp, rfl, hi⟩
  · rintro c ⟨e, answer⟩ c' hR hP hn hnow
    have hR' := (hR.next hn).reachable
    -- a call of the contract at the time of the block
    have hcalled : ∀ {call : Call} {resp : Response}, c'.now = c.now → (∀ t ∈ call.time, t = c.now) →
        call.run c.store = .ok (c'.store, resp) → Blocks.Paced ⟨c'.store, c'.now, []⟩ := by
      intro call resp htime ht hcall
      obtain ⟨hterms, htimed, -⟩ := (hP (htime ▸ hnow)).called ht hcall
      refine paced_bare hR' hnow ?_
      rw [hterms.period, hterms.windowSecs, htime]
      exact htimed
    rcases step_ok hn with ⟨c₁, view, info, msg, store, resp, hen, he, hr, -⟩ | ⟨-, ha⟩
    · have hran := runs_ok hr
      have hfound : c₁.now = c.now := by
        cases hen with
        | call => rfl
        | send _ _ hm => exact (move_ok hm).1.now
      have hcall : (Call.execute (c₁.deps view) c₁.env info msg).run c.store = .ok (c'.store, resp) := by
        rw [← hen.store_eq, hran.store]
        exact he
      have htime : c'.now = c.now := hran.now.trans hfound
      refine hcalled htime (fun t ht => ?_) hcall
      have ht : t = c₁.now := (Option.some.inj ht).symm
      exact ht.trans hfound
    · cases ha with
      | transfer _ hm =>
        rw [(move_ok hm).1.store, (move_ok hm).1.now] at *
        exact hP hnow
      | @migrate store resp h =>
        have hcall : Call.migrate.run c.store = .ok (store, resp) := h
        exact hcalled rfl (fun t ht => by cases ht) hcall
      | inflow | accrue | slash => exact hP hnow
      | time h =>
        have hP := hP (h.trans_lt hnow)
        exact paced_bare hP.reachable hnow (hP.timed.mono h)

/-- Where nothing is due, every validator has a free slot. -/
theorem roomy (hR : c.Reaches) (hnow : c.now < u64Max) (hdue : c.dueWindows = []) {v : ValidatorEntry}
    (hv : v ∈ c.store.validators) :
    v.activeUnbondEntries < c.store.config.params.maxUnbondEntriesPerValidator := by
  refine (hR.paced hnow).room hv ?_
  rintro w ⟨hw, hs, -, hle⟩
  have hmem : w.id ∈ c.dueWindows :=
    List.mem_filter.2 ⟨(hR.reachable.booked.shape.active w.id).2 ⟨w, hw, .inl hs⟩,
      dueIn_iff.2 ⟨w, hw, hs, hle⟩⟩
  rw [hdue] at hmem
  exact absurd hmem List.not_mem_nil

/-! ## Closing -/

/-- What is delegated is what is cached, where the cache is the chain's. -/
theorem total_of_agrees (hR : c.Reaches) (h : Agrees c.store.validators c) :
    total (·.bonded) c.store.validators = c.bonded := by
  rw [Chain.bonded, hR.housed.total_eq hR.nodup (·.amount.val) rfl, total]
  exact congrArg List.sum (List.map_congr_left fun v hv => by rw [bonded_of_agrees h hv])

/-- **When the open window can be closed**, once nothing is due and the cache is the chain's: what it
owes is delegated. -/
theorem closes_iff (hR : c.Reaches) (hnow : c.now < u64Max) (hup : Agrees c.store.validators c)
    (hdue : c.dueWindows = []) (ho : Overdue c.env c.store w) :
    Browser.Closes c ↔ w.scrtOwed.val ≤ c.bonded := by
  have hcap : capacity c.store.config.params.maxUnbondEntriesPerValidator c.store.validators =
      c.bonded := by
    rw [capacity_eq fun v hv _ => roomy hR hnow hdue hv, total_of_agrees hR hup]
  constructor
  · rintro ⟨x, hx, hle, -⟩
    obtain rfl := Option.some.inj (ho.lookup.symm.trans hx.lookup)
    exact hcap ▸ hle
  · intro hle
    refine ⟨w, ho, hcap.symm ▸ hle, fun before d after v hord hv => ?_⟩
    -- a validator holds all that is cached of it, so whatever is drawn on it
    obtain ⟨x, hx, -, hof⟩ := (Validators.drawOrder_ok hord).entry d
      (List.mem_append_right _ List.mem_cons_self)
    obtain rfl := Option.some.inj (hv.symm.trans hx)
    rw [← bonded_of_agrees hup (List.mem_of_getElem? hv), ← hof.bonded]
    exact Nat.min_le_right _ _

end Chain

namespace Browser

open Chain

variable {c c' : Chain} {view : Deps} {sender : Addr} {task : UpkeepTask} {tasks : List UpkeepTask}
  {token : ContractInfo} {w : UnbondWindow}

/-- **A window that is closed is owed no more than is delegated.** -/
theorem owed_le_bonded (hR : c.Reaches) (ho : Overdue c.env c.store w)
    (h : runTask view sender c .advanceWindow = some c') : w.scrtOwed.val ≤ c.bonded := by
  obtain ⟨-, store, resp, he, hr⟩ := runTask_eq_some.1 h
  obtain ⟨x, closing, hw, hopen, hdue, hc, hm⟩ := executeAdvanceWindow_ok he
  obtain rfl := Option.some.inj (ho.lookup.symm.trans hw)
  obtain ⟨used, hund, -⟩ := closeOpenWindow_ok hw hopen hdue hc
  obtain ⟨l, hl, hnd, -⟩ := closing_backed hR hund
  have hran := runs_ok hr
  -- it undelegates what the window is owed, from each validator no more than it holds
  have hsum : (l.map (·.2.val)).sum = w.scrtOwed.val := by
    rw [← hund.leaving c.self.address c.store.config.bondedDenom, hl, leavingBy, List.map_map]
    rfl
  have hheld : ∀ p ∈ l, p.2.val ≤ (c.stakeOf p.1).amount.val := by
    intro p hp
    have hamount : (c'.stakeOf p.1).amount.val + (resp.messages.map (·.outOf p.1)).sum =
      (c.stakeOf p.1).amount.val + (resp.messages.map (·.into p.1)).sum := hran.amount p.1
    have hnone : (resp.messages.map (·.into p.1)).sum = 0 := by
      rw [hm, hl]
      refine List.sum_eq_zero fun n hn => ?_
      obtain ⟨m, hm, rfl⟩ := List.mem_map.1 hn
      obtain ⟨q, -, rfl⟩ := List.mem_map.1 hm
      rfl
    have hout : p.2.val ≤ (resp.messages.map (·.outOf p.1)).sum := by
      rw [hm, hl]
      refine List.single_le_sum (fun _ _ => Nat.zero_le _) _ ?_
      refine List.mem_map.2 ⟨_, List.mem_map_of_mem hp, ?_⟩
      simp [undelegateMsg, CosmosMsg.outOf]
    omega
  rw [← hsum]
  calc (l.map (·.2.val)).sum ≤ ((l.map (·.1)).map fun v => (c.stakeOf v).amount.val).sum := by
        rw [List.map_map]
        exact List.sum_le_sum hheld
    _ = ((l.map (·.1)).map fun v => (c.stakes.lookup v).elim 0 fun s => s.amount.val).sum := by
        refine congrArg List.sum (List.map_congr_left fun v _ => ?_)
        exact (stakeOf_elim (·.amount.val) rfl).symm
    _ ≤ c.bonded := Keymap.sum_le_total hnd

/-- What has been earned is delegated by a compound, and nothing is left of it. -/
theorem compound_stake (hP : Ready c) (h : runTask view sender c .compound = some c') :
    c'.bonded = c.bonded + c.held ∧ c'.held = 0 := by
  have hR := hP.reaches
  obtain ⟨hR', -⟩ := runTask_goes hR h
  obtain ⟨hup, hz⟩ := compound_done hR hP.cursor hP.delegated h
  obtain ⟨k, hr, -, -, hpage⟩ := compounded hR hP.cursor h
  have hstore : c'.store = k.next := (runs_ok hr).store
  have hset := harvestedSet_all hP.cursor k (le_max_of_le_left (length_le hR))
  have hread : total (·.bonded) (c.store.validators.map c.reap) = c.bonded := by
    rw [Chain.bonded, hR.housed.total_eq hR.nodup (·.amount.val) rfl, total, List.map_map]
    exact congrArg List.sum (List.map_congr_left fun v hv =>
      congrArg Word.val (hP.delegated.reap hv))
  have hharvest : k.harvested.val = c.held := by
    rw [k.harvested_val, hpage, rewardsOf_eq, held, hR.housed.total_eq hR.nodup (·.rewards.val) rfl]
  constructor
  · rw [← total_of_agrees hR' hup.agrees, hstore]
    show total (·.bonded) k.set = _
    rw [(restaked_total k).1, hset, hread, hharvest]
  · rw [held, hR'.housed.total_eq hR'.nodup (·.rewards.val) rfl]
    refine List.sum_eq_zero fun n hn => ?_
    obtain ⟨v, hv, rfl⟩ := List.mem_map.1 hn
    rw [hz v hv]
    rfl

/-- **What is delegated and earned** is as much after a task as before. -/
theorem runTask_stake (hP : Ready c) (hne : task ≠ .advanceWindow)
    (h : runTask view sender c task = some c') : c'.bonded + c'.held = c.bonded + c.held := by
  cases task with
  | advanceWindow => exact absurd rfl hne
  | sync =>
    obtain ⟨s, rfl, -⟩ := synced hP.reaches hP.cursor h
    rfl
  | compound =>
    obtain ⟨hbonded, hheld⟩ := compound_stake hP h
    omega
  | collectMatured =>
    obtain ⟨store, _, _, rfl, -⟩ := collected_ok hP.reaches h
    rfl

/-- **Whatever closes the open window**, in any order and by anybody: what it owes is delegated or
earned. -/
theorem owed_le_stake (hP : Ready c) (ho : Overdue c.env c.store w)
    (hmem : UpkeepTask.advanceWindow ∈ tasks) (h : runUpkeep view sender tasks c = .ok c') :
    w.scrtOwed.val ≤ c.bonded + c.held := by
  obtain ⟨-, hrun⟩ := runUpkeep_eq_ok.1 h
  -- up to the first `AdvanceWindow` the window stays as it is
  obtain ⟨before, after, rfl, hfirst⟩ := List.eq_append_cons_of_mem hmem
  rw [List.foldlM_append, Option.bind_eq_bind, Option.bind_eq_some_iff] at hrun
  obtain ⟨c₁, hbefore, hrun⟩ := hrun
  rw [List.foldlM_cons, Option.bind_eq_bind, Option.bind_eq_some_iff] at hrun
  obtain ⟨c₂, hadvance, -⟩ := hrun
  obtain ⟨hP₁, ho₁, hstake⟩ := (Run.of_foldlM hbefore).inv_of_mem
    (P := fun d => Ready d ∧ Overdue d.env d.store w ∧ d.bonded + d.held = c.bonded + c.held)
    ⟨hP, ho, rfl⟩ fun d task d' htask ⟨hP, ho, hstake⟩ h => by
      have hne : task ≠ .advanceWindow := fun he => hfirst (he ▸ List.mem_reverse.1 htask)
      exact ⟨(runTask_done hP hne h).1, (overdue_runTask hP.reaches hne h).2 ho,
        (runTask_stake hP hne h).trans hstake⟩
  have hle := owed_le_bonded hP₁.reaches ho₁ hadvance
  omega

/-- **The best order.** A collect, a compound and then the `AdvanceWindow` close an overdue window if
what is delegated and earned covers what it owes; and otherwise no transaction closes it, whatever its
tasks and their order. -/
theorem best_order (hP : Ready c) (hnow : c.now < u64Max) (ht : c.store.config.token = some token)
    (hroom : c.Room 3) (hs : ¬ c.IsContract sender) (ho : Overdue c.env c.store w) (view : Deps) :
    ((∃ c', runUpkeep view sender [.collectMatured, .compound, .advanceWindow] c = .ok c') ↔
      w.scrtOwed.val ≤ c.bonded + c.held) ∧
    ∀ view' sender' tasks c', UpkeepTask.advanceWindow ∈ tasks →
      runUpkeep view' sender' tasks c = .ok c' → w.scrtOwed.val ≤ c.bonded + c.held := by
  refine ⟨⟨?_, fun hle => ?_⟩, fun view' sender' tasks c' hmem h => owed_le_stake hP ho hmem h⟩
  · rintro ⟨c', h⟩
    exact owed_le_stake hP ho (by simp) h
  · have hthree : c.Room [UpkeepTask.collectMatured, .compound, .advanceWindow].length := hroom
    refine (upkeep_iff hP.reaches ht hthree hs view).2 ⟨List.cons_ne_nil _ _, ?_⟩
    intro before after c₂ hsplit hrun
    obtain rfl : before = [.collectMatured, .compound] := by
      rcases before with _ | ⟨a, _ | ⟨b, _ | ⟨d, before⟩⟩⟩ <;> simp_all
    simp only [List.foldlM_cons, List.foldlM_nil, Option.bind_eq_bind, Option.bind_eq_some_iff,
      Option.pure_def, Option.some.injEq] at hrun
    obtain ⟨c₁, hcollect, c₂, hcompound, rfl⟩ := hrun
    have hne₁ : UpkeepTask.collectMatured ≠ .advanceWindow := nofun
    have hne₂ : UpkeepTask.compound ≠ .advanceWindow := nofun
    -- the collect frees the slots, and the compound brings the cache up to date
    obtain ⟨hP₁, hdue, -⟩ := runTask_done hP hne₁ hcollect
    obtain ⟨hP₂, hup, hkeep⟩ := runTask_done hP₁ hne₂ hcompound
    obtain ⟨-, htime₁⟩ := runTask_goes hP.reaches hcollect
    obtain ⟨-, htime₂⟩ := runTask_goes hP₁.reaches hcompound
    have ho₁ : Overdue c₁.env c₁.store w := (overdue_runTask hP.reaches hne₁ hcollect).2 ho
    have ho₂ : Overdue c₂.env c₂.store w := (overdue_runTask hP₁.reaches hne₂ hcompound).2 ho₁
    refine (closes_iff hP₂.reaches (by omega) hup.1.agrees (hkeep _ hne₁ hdue) ho₂).2 ?_
    have hstake := runTask_stake hP hne₁ hcollect
    obtain ⟨hbonded, -⟩ := compound_stake hP₁ hcompound
    omega

/-- A window of 5 SCRT closes every five days, and nobody collects; the seventh is overdue and owes 60,
when the first two have come back. -/
def devJammed : List ChainEvent :=
  [devSeed, devEnter "user" (Uint128.new 100000000) .deposit] ++
    ((List.range 6).flatMap fun i => [devSend "user" (Uint128.new 5000000),
      .time (devStart + (i + 1) * 432000), devEnter "keeper" 0 .advanceWindow]) ++
    [devSend "user" (Uint128.new 60000000), .time (devStart + 7 * 432000)]

set_option maxRecDepth 10000 in
/-- The page shows the advance and the collect as due, in this order, and its button is refused: the
validator that has the stake is full. The collect before the advance closes the window. -/
theorem best_order_jammed : ∃ (c : Chain) (w : UnbondWindow) (state : StateResponse), Ready c ∧
    Overdue c.env c.store w ∧ queryState (c.deps (devView 0 [])) c.env c.store = .ok state ∧
    (¬ ∃ c', runUpkeep (devView 0 []) "visitor" (dueTasks (assess toString (some state) (some ())
      (fetchWindows none c.store) none c.now)) c = .ok c') ∧
    ∃ c', runUpkeep (devView 0 []) "visitor" [.collectMatured, .compound, .advanceWindow] c =
      .ok c' := by
  have hrun : (devChain.replay devJammed).bind (fun s =>
      (s.1.store.windows.lookup s.1.store.openWindow).bind fun w =>
        (queryState (s.1.deps (devView 0 [])) s.1.env s.1.store).toOption.map fun state =>
          (s.1.store.config.token, decide (s.1.IsContract "visitor"),
            (runUpkeep (devView 0 []) "visitor" (dueTasks (assess toString (some state) (some ())
              (fetchWindows none s.1.store) none s.1.now)) s.1).toOption.isSome,
            decide (s.1.store.syncCursor = 0 ∧ (∀ v ∈ s.1.store.validators,
                s.1.stakes.lookup v.address = none → v.bonded = 0) ∧
              s.1.dueWindows.length ≤ maxValidators ∧ s.1.now < u64Max ∧ w.closesAt ≤ s.1.now ∧
              w.scrtOwed.val ≤ s.1.bonded + s.1.held),
            decide (s.1.store.totals.totalBonded.val + s.1.store.totals.pendingRewards.val +
              4 * s.1.worth < 2 ^ 128 ∧ s.1.supply.val * 8 < 2 ^ 128 ∧
              s.1.store.totals.scrtOwedOpen.val + s.1.store.totals.scrtOwedUnbonding.val +
                s.1.store.totals.scrtOwedMatured.val < 2 ^ 128 ∧
              s.1.store.nextWindowId + 3 ≤ u64Max))) =
      some (some ⟨"token", "tokenhash"⟩, false, false, true, true) := by decide +kernel
  obtain ⟨⟨c, h⟩, hr, hrun⟩ := Option.bind_eq_some_iff.1 hrun
  obtain ⟨w, hw, hrun⟩ := Option.bind_eq_some_iff.1 hrun
  obtain ⟨state, hstate, hs⟩ := Option.map_eq_some_iff.1 hrun
  simp only [Prod.mk.injEq, decide_eq_false_iff_not, decide_eq_true_eq,
    Option.isSome_eq_false_iff, Option.isNone_iff_eq_none] at hs
  obtain ⟨ht, hsender, hrefused, ⟨hcursor, hdelegated, hdue, hnow, hclosed, howed⟩, hmoney, hsupply,
    hopen, hids⟩ := hs
  have hP : Ready c := ⟨⟨devChain, h, devChain_fresh, replay_ok hr⟩, hcursor, hdelegated, hdue⟩
  have ho : Overdue c.env c.store w := ⟨hw, hclosed⟩
  refine ⟨c, w, state, hP, ho, toOption_eq_some.1 hstate, ?_, ?_⟩
  · rintro ⟨c', hc'⟩
    rw [hc'] at hrefused
    cases hrefused
  · exact (best_order hP hnow ht ⟨hmoney, hsupply, hopen, hids⟩ hsender ho _).1.2 howed

end Browser

end LstCore
