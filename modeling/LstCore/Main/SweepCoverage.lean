import LstCore.Proof.Roster
import LstCore.Proof.World

/-!
# What a completed sweep has harvested

A compound and a sync work through the set from the one cursor, and a compound answers that it
is done when its page reaches the end of the set, whoever moved the cursor up to the page. So
a completed sweep leaves out exactly the validators behind the cursor that nobody harvested
(`sweep_covers`), and it leaves out none where no sync moves the cursor past a validator whose
rewards are still to be taken.

* `Interval`: the calls since a sweep was completed.
* `Due`, `Took`: whose rewards the calls have to have taken, and whose they took.
* `Interval.harvestedBehind`: the invariant.
-/

namespace LstCore

open Lib

/-! ## Intervals -/

/-- A call that works on a page of the set. -/
def Call.pages : Call → Bool
  | .execute _ _ _ (.sync _) | .execute _ _ _ (.compound _) => true
  | _ => false

/-- A call, with the storage it found and what it answered. -/
structure Moment where
  store : Storage
  call : Call
  resp : Response

namespace Moment

/-- A compound that answers that it is done. -/
def completes (m : Moment) : Bool :=
  match m.call, m.resp.data with
  | .execute _ _ _ (.compound _), some (.compound _ _ _ true) => true
  | _, _ => false

/-- The chain reports rewards on the contract's delegation to a validator, if the call can ask. -/
def pays (m : Moment) (a : String) : Bool :=
  match m.call with
  | .execute deps env _ _ => rewardsAt deps env.contract.address m.store.config.bondedDenom a ≠ 0
  | .migrate => true

/-- The validators that a sync which stops short of the end of the set moves the cursor past. -/
def passes (m : Moment) : List String :=
  match m.call with
  | .execute _ _ _ (.sync limit) =>
    let stop := m.store.syncCursor + max (limit.getD defaultSyncLimit) 1
    if stop < m.store.validators.length then
      ((addresses m.store.validators).take stop).drop m.store.syncCursor
    else []
  | _ => []

end Moment

/-- **The calls since a sweep was completed**, the newest first, or since the contract was
instantiated, and the storage they have led to. -/
inductive Interval : List Moment → Storage → Prop
  | opens {st : Storage} (h : Instantiated st) : Interval [] st
  | completed {log : List Moment} {st st' : Storage} {call : Call} {resp : Response}
      (h : Interval log st) (hs : Step st (call, resp) st')
      (hc : (Moment.mk st call resp).completes = true) : Interval [] st'
  | call {log : List Moment} {st st' : Storage} {call : Call} {resp : Response}
      (h : Interval log st) (hs : Step st (call, resp) st')
      (hc : (Moment.mk st call resp).completes = false) : Interval (⟨st, call, resp⟩ :: log) st'

/-- A withdrawal of a validator's rewards has been issued. -/
def Took (a : String) (log : List Moment) : Prop :=
  ∃ m ∈ log, CosmosMsg.withdrawDelegatorReward a ∈ m.resp.messages

/-- A validator has been in the set at every call, and its delegation held rewards at every one
until they were taken. -/
def Due (a : String) : List Moment → Prop
  | [] => True
  | m :: log => Due a log ∧ a ∈ addresses m.store.validators ∧ (Took a log ∨ m.pays a = true)

/-- No sync moved the cursor past a validator whose rewards were still to be taken. -/
def Watched : List Moment → Prop
  | [] => True
  | m :: log => Watched log ∧ ∀ a ∈ m.passes, Due a (m :: log) → Took a log

instance (a : String) (log : List Moment) : Decidable (Took a log) :=
  inferInstanceAs (Decidable (∃ _ ∈ log, _))

instance Due.decidable (a : String) : ∀ log, Decidable (Due a log)
  | [] => .isTrue trivial
  | m :: log => by
    have := Due.decidable a log
    exact inferInstanceAs (Decidable (Due a log ∧ _ ∧ _))

instance Watched.decidable : ∀ log, Decidable (Watched log)
  | [] => .isTrue trivial
  | m :: log => by
    have := Watched.decidable log
    exact inferInstanceAs (Decidable (Watched log ∧ _))

variable {st st' : Storage} {log : List Moment} {m : Moment} {a : String}

theorem Took.cons (h : Took a log) : Took a (m :: log) :=
  let ⟨n, hn, ht⟩ := h
  ⟨n, List.mem_cons_of_mem m hn, ht⟩

theorem took_cons : Took a (m :: log) ↔
    CosmosMsg.withdrawDelegatorReward a ∈ m.resp.messages ∨ Took a log := by
  simp [Took]

theorem Interval.reachable (h : Interval log st) : Reachable st := by
  induction h with
  | opens h => exact ⟨_, [], h, .nil⟩
  | completed _ hs _ ih => exact ih.step hs
  | call _ hs _ ih => exact ih.step hs

/-- Every reachable storage is in an interval. -/
theorem Reachable.interval (h : Reachable st) : ∃ log, Interval log st := by
  refine h.inv (P := fun st => ∃ log, Interval log st) (fun st hi => ⟨[], .opens hi⟩) ?_
  rintro st ⟨call, resp⟩ st' ⟨log, hl⟩ hs
  cases hc : (Moment.mk st call resp).completes with
  | true => exact ⟨[], hl.completed hs hc⟩
  | false => exact ⟨_, hl.call hs hc⟩

/-! ## Behind the cursor -/

variable {deps : Deps} {env : Env} {limit : Option ℕ} {resp : Response} {call : Call}

/-- Whoever is due behind the cursor has been harvested. -/
def HarvestedBehind (st : Storage) (log : List Moment) : Prop :=
  ∀ a ∈ (addresses st.validators).take st.syncCursor, Due a log → Took a log

theorem mem_take_pages {l : List String} {cursor stop : ℕ} (h : a ∈ l.take stop) :
    a ∈ l.take cursor ∨ a ∈ (l.take stop).drop cursor := by
  rw [← List.take_append_drop cursor (l.take stop), List.mem_append, List.take_take] at h
  exact h.imp_left fun h => (List.take_subset_take_left l (min_le_left _ _)) h

/-- A compound withdraws from nobody outside its page. -/
theorem Compounded.mem_page (c : Compounded deps env limit st)
    (h : CosmosMsg.withdrawDelegatorReward a ∈ c.messages) :
    a ∈ addresses (pageOf st.syncCursor c.stop st.validators) := by
  rw [addresses_eq]
  rcases List.mem_append.1 h with h | h
  · obtain ⟨v, hv, he⟩ := List.mem_map.1 h
    cases he
    exact List.mem_map_of_mem (List.mem_of_mem_filter hv)
  · -- after the withdrawals come a delegation and a mint, if anything
    rcases restake_ok c.restake_eq with ⟨-, -, hnil, -⟩ | ⟨-, _, _, _, -, -, -, hf, hmsgs⟩
    · simp [hnil] at h
    · rcases feeMessages_ok hf with rfl | ⟨_, _, rfl⟩ <;> simp [hmsgs, delegateMsg] at h

/-- A call that moves neither the cursor nor a validator: at most new ones come behind. -/
theorem HarvestedBehind.kept (h : HarvestedBehind st log) (hS : Slotted st')
    (hc : st'.syncCursor = st.syncCursor) {new : List String}
    (hnew : addresses st'.validators = addresses st.validators ++ new) :
    HarvestedBehind st' (⟨st, call, resp⟩ :: log) := by
  rintro a ha ⟨hdue, hmem, -⟩
  have hdis := hS.distinct
  rw [hnew] at hdis ha
  rw [hc, List.take_append, List.mem_append] at ha
  rcases ha with ha | ha
  · exact (h a ha hdue).cons
  · -- whoever has just come in was not there at the call
    exact absurd (List.mem_of_mem_take ha) (List.disjoint_of_nodup_append hdis hmem)

/-- **A call that is no page** leaves the cursor alone, and at most appends to the set. -/
theorem Step.unpaged (hR : Reachable st) (hs : Step st (call, resp) st') (hp : call.pages = false) :
    st'.syncCursor = st.syncCursor ∧
      ∃ new, addresses st'.validators = addresses st.validators ++ new := by
  -- a call that keeps the roster appends nobody
  have hsteady : Steady st st' → st'.syncCursor = st.syncCursor ∧
      ∃ new, addresses st'.validators = addresses st.validators ++ new := fun h =>
    ⟨h.cursor, [], (addresses_of_roster h.roster).trans (List.append_nil _).symm⟩
  cases call with
  | migrate =>
    obtain ⟨rfl, -⟩ := migrate_ok hs
    exact hsteady ⟨rfl, rfl⟩
  | execute deps env info msg =>
    have he : execute deps env info msg st = .ok (st', resp) := hs
    cases msg with
    | sync limit => cases hp
    | compound limit => cases hp
    | manager m =>
      obtain ⟨new, hslots, -⟩ := executeManager_slots he
      refine ⟨?_, new, ?_⟩
      · rcases executeManager_steady he with ⟨_, -, rfl⟩ | hst
        · rfl
        · exact hst.cursor
      · rw [addresses, addresses, hslots, List.map_append]
        simp [Function.comp_def]
    | _ => exact hsteady (execute_steady hR.booked rfl he)

/-- A page done, or the last of them. -/
theorem HarvestedBehind.page {stop : ℕ} (h : HarvestedBehind st log)
    (ha : addresses st'.validators = addresses st.validators)
    (hc : st'.syncCursor = if st.validators.length ≤ stop then 0 else stop)
    (hpage : stop < st.validators.length → ∀ a ∈ addresses (pageOf st.syncCursor stop st.validators),
      Due a (⟨st, call, resp⟩ :: log) → Took a (⟨st, call, resp⟩ :: log)) :
    HarvestedBehind st' (⟨st, call, resp⟩ :: log) := by
  intro a hmem hdue
  rw [ha, hc] at hmem
  by_cases hend : st.validators.length ≤ stop
  · simp [hend] at hmem
  · rw [if_neg hend] at hmem
    -- behind the new cursor is who was behind the old one, and the page
    rcases mem_take_pages hmem with hold | hnew
    · exact (h a hold hdue.1).cons
    · exact hpage (not_le.1 hend) a (addresses_pageOf .. ▸ hnew) hdue

/-- **What one call leaves behind the cursor.** -/
theorem HarvestedBehind.step (h : HarvestedBehind st log) (hR : Reachable st)
    (hw : ∀ a ∈ (Moment.mk st call resp).passes, Due a (⟨st, call, resp⟩ :: log) → Took a log)
    (hs : Step st (call, resp) st') : HarvestedBehind st' (⟨st, call, resp⟩ :: log) := by
  cases hp : call.pages with
  | false =>
    obtain ⟨hc, new, hnew⟩ := Step.unpaged hR hs hp
    exact h.kept (hR.step hs).slotted hc hnew
  | true =>
    unfold Call.pages at hp
    split at hp
    · rename_i deps env info limit
      obtain ⟨s, rfl, -⟩ := executeSync_ok (show executeSync deps env limit st = .ok (st', resp) from hs)
      have haddr := addresses_of_roster s.roster_next
      refine h.page haddr (by rw [← s.length_next]; rfl) fun hlt a ha hdue => (hw a ?_ hdue).cons
      -- the page ended where the limit said
      have hstop := pageEnd_eq s.stop_eq
      rw [addresses_pageOf] at ha
      simp only [Moment.passes]
      rw [if_pos (by omega)]
      rwa [hstop, min_eq_left (by omega)] at ha
    · rename_i deps env info limit
      obtain ⟨c, rfl, hm, -⟩ :=
        executeCompound_ok (show executeCompound deps env limit st = .ok (st', resp) from hs)
      have haddr := addresses_of_roster c.roster_next
      refine h.page haddr (by rw [← c.length_next]; rfl) fun hlt a ha hdue => took_cons.2 ?_
      -- whoever on the page still has rewards loses them now
      obtain ⟨-, -, htook | hpays⟩ := hdue
      · exact .inr htook
      · exact .inl (by rw [hm]; exact c.takes ha (by simpa [Moment.pays] using hpays))
    · cases hp

/-- **A compound that completes the sweep, inverted**: its page reaches the end of the set. -/
theorem completes_ok (hs : Step st (call, resp) st')
    (hc : (Moment.mk st call resp).completes = true) :
    ∃ deps env info limit, ∃ c : Compounded deps env limit st,
      call = .execute deps env info (.compound limit) ∧ st' = c.next ∧ resp.messages = c.messages ∧
        st.validators.length ≤ c.stop := by
  unfold Moment.completes at hc
  split at hc
  · rename_i deps env info limit harvested fee processed hcall hdata
    have hcall : call = .execute deps env info (.compound limit) := hcall
    have hdata : resp.data = some (.compound harvested fee processed true) := hdata
    subst hcall
    obtain ⟨c, hst, hm, hans⟩ := executeCompound_ok hs
    rw [hdata, Option.some.injEq, Compounded.answer, ExecuteAnswer.compound.injEq] at hans
    have hdone := decide_eq_true_iff.1 hans.2.2.2.symm
    exact ⟨deps, env, info, limit, c, rfl, hst, hm, c.length_next ▸ hdone⟩
  · cases hc

/-- **The invariant**: in an interval in which no sync moved the cursor past rewards still to be
taken, there are none behind the cursor. -/
theorem Interval.harvestedBehind (h : Interval log st) (hw : Watched log) : HarvestedBehind st log := by
  induction h with
  | opens hi =>
    obtain ⟨deps, env, info, msg, resp, hi⟩ := hi
    obtain ⟨config, -, -, -, -, -, rfl⟩ := instantiate_ok hi
    exact fun a ha => absurd ha (by simp [initialStorage])
  | completed _ hs hc _ =>
    obtain ⟨_, _, _, _, c, -, rfl, -, hend⟩ := completes_ok hs hc
    have hcursor : c.next.syncCursor = 0 := if_pos (c.length_next ▸ hend)
    exact fun a ha => absurd ha (by simp [hcursor])
  | call h hs hc ih => exact (ih hw.1).step h.reachable hw.2 hs

/-- **Whom a completed sweep leaves out**: whoever it found due behind the cursor. -/
theorem completed_iff (h : Interval log st) (hs : Step st (call, resp) st')
    (hc : (Moment.mk st call resp).completes = true) :
    (∀ a, Due a (⟨st, call, resp⟩ :: log) → Took a (⟨st, call, resp⟩ :: log)) ↔
      ∀ a ∈ (addresses st.validators).take st.syncCursor,
        Due a (⟨st, call, resp⟩ :: log) → Took a log := by
  obtain ⟨deps, env, info, limit, c, rfl, -, hm, hend⟩ := completes_ok hs hc
  -- the page is the set from the cursor on
  have hpage : addresses (pageOf st.syncCursor c.stop st.validators) =
      (addresses st.validators).drop st.syncCursor := by
    rw [addresses_pageOf, List.take_of_length_le]
    simpa [addresses_eq] using hend
  constructor
  · intro hall a ha hdue
    -- nobody behind the cursor is on the page, so this compound did not harvest them
    rcases took_cons.1 (hall a hdue) with hnow | hbefore
    · have hin := c.mem_page (hm ▸ hnow)
      rw [hpage] at hin
      exact (List.disjoint_take_drop h.reachable.slotted.distinct le_rfl ha hin).elim
    · exact hbefore
  · intro hall a hdue
    have hmem := hdue.2.1
    rw [← List.take_append_drop st.syncCursor (addresses _), List.mem_append] at hmem
    rcases hmem with hbehind | hahead
    · exact (hall a hbehind hdue).cons
    · obtain ⟨-, -, htook | hpays⟩ := hdue
      · exact htook.cons
      · exact took_cons.2 (.inl (hm ▸ c.takes (hpage ▸ hahead) (by simpa [Moment.pays] using hpays)))

/-- **A completed sweep.** A compound that answers that it is done leaves out exactly the
validators behind the cursor it found whose rewards were due and that nobody had harvested; and
it leaves out none where no sync since the last completed sweep moved the cursor past such a
validator. That is enough and not needed: a later sync that comes to the end of the set brings the
cursor back in front of the validators passed over. -/
theorem sweep_covers (h : Interval log st) (hs : Step st (call, resp) st')
    (hc : (Moment.mk st call resp).completes = true) :
    ((∀ a, Due a (⟨st, call, resp⟩ :: log) → Took a (⟨st, call, resp⟩ :: log)) ↔
      ∀ a ∈ (addresses st.validators).take st.syncCursor,
        Due a (⟨st, call, resp⟩ :: log) → Took a log) ∧
    (Watched log → ∀ a, Due a (⟨st, call, resp⟩ :: log) → Took a (⟨st, call, resp⟩ :: log)) :=
  have hiff := completed_iff h hs hc
  ⟨hiff, fun hw => hiff.2 fun a ha hdue => h.harvestedBehind hw a ha hdue.1⟩

/-! ## A validator left out -/

/-- What the chain reports once the first validator has earned 10 SCRT. -/
def devOneEarned : Deps := devView (Uint128.new 110000000)
  [("validatorone", Uint128.new 10000000, Uint128.new 10000000),
    ("validatortwo", Uint128.new 100000000, 0)]

/-- A call by the keeper, from a storage of the contract. -/
def devMoment (w : World) (msg : ExecuteMsg) (st : Storage) : Option (Storage × Moment) :=
  let call := Call.execute (w.deps devOneEarned 0) w.env ⟨"keeper", []⟩ msg
  (call.run st).toOption.map fun r => (r.1, ⟨st, call, r.2⟩)

theorem devMoment_ok {w : World} {msg : ExecuteMsg} (h : devMoment w msg st = some (st', m)) :
    ∃ call resp, m = ⟨st, call, resp⟩ ∧ Step st (call, resp) st' := by
  obtain ⟨⟨s, resp⟩, hr, he⟩ := Option.map_eq_some_iff.1 h
  rw [Prod.mk.injEq] at he
  obtain ⟨rfl, rfl⟩ := he
  exact ⟨_, _, rfl, toOption_eq_some.1 hr⟩

/-- The moments of some calls after one that completes a sweep, the newest first. -/
def devInterval (w : World) (first : ExecuteMsg) (msgs : List ExecuteMsg) :
    Option (Storage × List Moment) := do
  let (st, m) ← devMoment w first w.store
  if m.completes then
    msgs.foldlM (fun s msg => (devMoment w msg s.1).bind fun r =>
      if r.2.completes then none else some (r.1, r.2 :: s.2)) (st, [])
  else none

theorem devInterval_ok {w : World} {first : ExecuteMsg} {msgs : List ExecuteMsg}
    (hR : Reachable w.store) (h : devInterval w first msgs = some (st, log)) : Interval log st := by
  unfold devInterval at h
  simp only [Option.bind_eq_bind, Option.bind_eq_some_iff, Prod.exists] at h
  obtain ⟨s, m, hm, h⟩ := h
  obtain ⟨call, resp, rfl, hs⟩ := devMoment_ok hm
  split at h
  · rename_i hc
    obtain ⟨_, hl⟩ := hR.interval
    refine (Run.of_foldlM h).inv (P := fun s => Interval s.2 s.1) (hl.completed hs hc) ?_
    rintro ⟨st, log⟩ msg ⟨st', log'⟩ hl hstep
    simp only [Option.bind_eq_some_iff, Prod.exists] at hstep
    obtain ⟨s', m, hm, hstep⟩ := hstep
    obtain ⟨call, resp, rfl, hs⟩ := devMoment_ok hm
    split at hstep
    · simp at hstep
    · rename_i hnc
      simp only [Option.some.injEq, Prod.mk.injEq] at hstep
      obtain ⟨rfl, rfl⟩ := hstep
      exact hl.call hs (by simpa using hnc)
  · simp at h

set_option maxRecDepth 10000 in
/-- Syncs of two validators come before compounds of two: the compounds answer that they are
done, and the first validator's rewards are never taken. -/
theorem sweep_leaves_out : ¬ ∀ (log : List Moment) (st st' : Storage) (call : Call) (resp : Response),
    Interval log st → Step st (call, resp) st' → (Moment.mk st call resp).completes = true →
    ∀ a, Due a (⟨st, call, resp⟩ :: log) → Took a (⟨st, call, resp⟩ :: log) := by
  have hrun : ([devBootstrap, devDeposit, devTx devOneEarned "keeper" 0 (.sync (some 2))].foldlM
      World.step devWorld).map (fun w =>
        (devInterval w (.compound (some 2)) [.sync (some 2)]).map fun s =>
          (devMoment w (.compound (some 2)) s.1).map fun r =>
            (r.2.completes, decide (Due "validatorone" (r.2 :: s.2)),
              decide (Took "validatorone" (r.2 :: s.2)))) =
      some (some (some (true, true, false))) := by decide +kernel
  obtain ⟨w, hw, hs⟩ := Option.map_eq_some_iff.1 hrun
  obtain ⟨⟨st, log⟩, hl, hs⟩ := Option.map_eq_some_iff.1 hs
  obtain ⟨⟨st', m⟩, hm, hs⟩ := Option.map_eq_some_iff.1 hs
  obtain ⟨call, resp, rfl, hstep⟩ := devMoment_ok hm
  simp only [Prod.mk.injEq, decide_eq_true_eq, decide_eq_false_iff_not] at hs
  obtain ⟨hc, hdue, hnot⟩ := hs
  exact fun hall => hnot (hall _ _ _ _ _
    (devInterval_ok (World.replay_reachable devWorld_fresh hw) hl) hstep hc _ hdue)

set_option maxRecDepth 10000 in
/-- The first validator is harvested, a sync passes the second, which has earned nothing, and a
compound takes the rest. -/
theorem sweep_covers_watched : ∃ (log : List Moment) (st st' : Storage) (call : Call)
    (resp : Response), Interval log st ∧ Step st (call, resp) st' ∧
    (Moment.mk st call resp).completes = true ∧ Watched log ∧
    Due "validatorone" (⟨st, call, resp⟩ :: log) ∧ Took "validatorone" (⟨st, call, resp⟩ :: log) := by
  have hrun : ([devBootstrap, devDeposit].foldlM World.step devWorld).map (fun w =>
        (devInterval w (.compound (some 4)) [.compound (some 1), .sync (some 1)]).map fun s =>
          (devMoment w (.compound (some 2)) s.1).map fun r =>
            (r.2.completes, decide (Watched s.2), decide (Due "validatorone" (r.2 :: s.2)))) =
      some (some (some (true, true, true))) := by decide +kernel
  obtain ⟨w, hw, hs⟩ := Option.map_eq_some_iff.1 hrun
  obtain ⟨⟨st, log⟩, hl, hs⟩ := Option.map_eq_some_iff.1 hs
  obtain ⟨⟨st', m⟩, hm, hs⟩ := Option.map_eq_some_iff.1 hs
  obtain ⟨call, resp, rfl, hstep⟩ := devMoment_ok hm
  simp only [Prod.mk.injEq, decide_eq_true_eq] at hs
  obtain ⟨hc, hwatched, hdue⟩ := hs
  have hi := devInterval_ok (World.replay_reachable devWorld_fresh hw) hl
  exact ⟨log, st, st', call, resp, hi, hstep, hc, hwatched, hdue,
    (sweep_covers hi hstep hc).2 hwatched _ hdue⟩

end LstCore
