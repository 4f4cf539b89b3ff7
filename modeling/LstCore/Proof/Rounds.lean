import LstCore.Proof.Assets
import LstCore.Spec.Alone

/-!
# The rounds of a keeper that is alone

* `PageHarvested`, `executeCompound_page`: what a compound makes of the storage, place by place.
* `Chain.await_ok`, `Chain.compound_ok`: what happens before the transaction leaves the storage and
  the rewards alone, and the transaction leaves no rewards in its page.
* `Rounded`, `Alone.rounded`: what a round that goes through does.
-/

namespace LstCore

open Lib

variable {c c' : Chain} {keeper : Addr} {limit : ℕ} {rounds : ℕ → Round} {s s' t : Alone}

/-! ## One page -/

/-- The place is in the page of the next compound. -/
def InPage (st : Storage) (limit i : ℕ) : Prop :=
  st.syncCursor ≤ i ∧ i < st.syncCursor + max limit 1

/-- The page of the next compound ends the set. -/
def LastPage (st : Storage) (limit : ℕ) : Prop :=
  st.validators.length ≤ st.syncCursor + max limit 1

instance (st : Storage) (limit i : ℕ) : Decidable (InPage st limit i) :=
  inferInstanceAs (Decidable (_ ∧ _))

instance (st : Storage) (limit : ℕ) : Decidable (LastPage st limit) :=
  inferInstanceAs (Decidable (_ ≤ _))

/-- What a compound makes of the storage, and what it answers. -/
structure PageHarvested (limit now : ℕ) (st st' : Storage) (answer : Option ExecuteAnswer) :
    Prop where
  config : st'.config = st.config
  addresses : addresses st'.validators = addresses st.validators
  cursor : st'.syncCursor = if LastPage st limit then 0 else st.syncCursor + max limit 1
  stamp : st'.totals.lastSyncTime = if LastPage st limit then now else st.totals.lastSyncTime
  pending : ∀ i, (st'.validators[i]?).map (·.pendingRewards) =
    (st.validators[i]?).map fun v => if InPage st limit i then 0 else v.pendingRewards
  mirrored : st'.totals.pendingRewards.val = total (·.pendingRewards) st'.validators
  answer : ∃ rewards fee processed,
    answer = some (.compound rewards fee processed (decide (LastPage st limit))) ∧
    ∀ i < st.validators.length, InPage st limit i → i < st.syncCursor + processed

variable {deps : Deps} {env : Env} {info : MessageInfo} {st st' : Storage} {resp : Response}
  {i stop : ℕ} {a : String}

theorem mem_pageOf (hstop : pageEnd st.syncCursor limit st.validators = .ok stop)
    (hi : (addresses st.validators)[i]? = some a) (hp : InPage st limit i) :
    a ∈ addresses (pageOf st.syncCursor stop st.validators) := by
  obtain ⟨hlow, hup⟩ := hp
  have hlt : i < (addresses st.validators).length := (List.getElem?_eq_some_iff.1 hi).1
  rw [addresses_eq, List.length_map] at hlt
  have hstop := pageEnd_eq hstop
  rw [addresses_pageOf]
  refine List.mem_of_getElem? (i := i - st.syncCursor) ?_
  rw [List.getElem?_drop, show st.syncCursor + (i - st.syncCursor) = i by omega,
    List.getElem?_take_of_lt (by omega), hi]

/-- The pending rewards after a compound: none in its page. -/
theorem Compounded.pending_at (k : Compounded deps env (some limit) st) (i : ℕ) :
    (k.set[i]?).map (·.pendingRewards) =
      (st.validators[i]?).map fun v => if InPage st limit i then 0 else v.pendingRewards := by
  have hset : k.set.map (·.pendingRewards) =
      (harvestedSet deps env st k.stop).map (·.pendingRewards) :=
    map_restake (fun _ _ => rfl) k.restake_eq
  have hstop := pageEnd_eq k.stop_eq
  rw [← List.getElem?_map, hset, List.getElem?_map, harvestedSet, getElem?_withPage _ k.cursor_le,
    Option.map_map]
  rcases hv : st.validators[i]? with _ | v
  · rfl
  have hlt : i < st.validators.length := (List.getElem?_eq_some_iff.1 hv).1
  have hiff : st.syncCursor ≤ i ∧ i < k.stop ↔ InPage st limit i := by
    unfold InPage
    rw [hstop, Option.getD_some]
    omega
  simp only [Option.map_some, Function.comp_apply, hiff]
  split <;> rfl

/-- **A compound, page by page.** -/
theorem executeCompound_page
    (h : executeCompound deps env (some limit) st = .ok (st', resp)) :
    PageHarvested limit env.time st st' resp.data := by
  obtain ⟨k, rfl, -, hd⟩ := executeCompound_ok h
  obtain ⟨_, _, _, done, hd', hstamp⟩ := executeCompound_stamp h
  have hstop := pageEnd_eq k.stop_eq
  rw [Option.getD_some] at hstop
  have hlast : k.set.length ≤ k.stop ↔ LastPage st limit := by
    unfold LastPage
    rw [k.length_next, hstop]
    omega
  have hdone : done = decide (LastPage st limit) := by
    rw [hd, Compounded.answer, Option.some.injEq, ExecuteAnswer.compound.injEq] at hd'
    rw [← hd'.2.2.2, decide_eq_decide]
    exact hlast
  refine ⟨rfl, ?_, ?_, ?_, k.pending_at, k.pending_val, k.harvested, k.fee, k.stop - st.syncCursor, ?_, ?_⟩
  · exact congrArg (List.map Prod.fst) k.slots_next
  · simp only [Compounded.next, hlast]
    by_cases hl : LastPage st limit
    · rw [if_pos hl, if_pos hl]
    · rw [if_neg hl, if_neg hl, hstop]
      unfold LastPage at hl
      omega
  · rw [hstamp, hdone]
    simp only [decide_eq_true_eq]
  · rw [hd, Compounded.answer, decide_eq_decide.2 hlast]
  · rintro i hi ⟨hlow, hup⟩
    omega

/-! ## The rounds on the chain -/

namespace Chain

/-- The contract's storage and the rewards at the validators are as they were. -/
structure Undisturbed (c c' : Chain) : Prop where
  store : c'.store = c.store
  rewards : ∀ a, (c'.stakeOf a).rewards = (c.stakeOf a).rewards

theorem Undisturbed.trans {c₁ : Chain} (h : Undisturbed c c₁) (h' : Undisturbed c₁ c') :
    Undisturbed c c' where
  store := h'.store.trans h.store
  rewards a := (h'.rewards a).trans (h.rewards a)

theorem incident_ok {e : Incident} {answer : Option ExecuteAnswer}
    (h : c.step e.event = some (c', answer)) : Undisturbed c c' := by
  have hn : Next c (e.event, answer) c' := h
  cases e with
  | inflow amount =>
    rcases step_ok hn with ⟨_, _, _, _, _, _, hen, -⟩ | ⟨-, ha⟩
    · cases hen
    · cases ha
      exact ⟨rfl, fun _ => rfl⟩
  | slash v amount =>
    rcases step_ok hn with ⟨_, _, _, _, _, _, hen, -⟩ | ⟨-, ha⟩
    · cases hen
    · cases ha with
      | @slash _ _ left s hs _ =>
        refine ⟨rfl, fun a => ?_⟩
        unfold stakeOf
        by_cases hv : a = v
        · subst hv
          rw [AList.lookup_insert, hs]
          rfl
        · rw [AList.lookup_insert_ne hv]

theorem time_ok {now : ℕ} {answer : Option ExecuteAnswer}
    (h : c.step (.time now) = some (c', answer)) : Undisturbed c c' ∧ c'.now = now := by
  have hn : Next c (.time now, answer) c' := h
  rcases step_ok hn with ⟨_, _, _, _, _, _, hen, -⟩ | ⟨-, ha⟩
  · cases hen
  · cases ha
    exact ⟨⟨rfl, fun _ => rfl⟩, rfl⟩

theorem incidents_ok : ∀ {es : List Incident} {c c' : Chain},
    c.play (es.map (·.event)) = some c' → Undisturbed c c' := by
  intro es
  induction es with
  | nil =>
    intro c c' h
    simp only [play, List.map_nil, List.foldlM_nil, Option.pure_def, Option.some.injEq] at h
    subst h
    exact ⟨rfl, fun _ => rfl⟩
  | cons e es ih =>
    intro c c' h
    simp only [play, List.map_cons, List.foldlM_cons, Option.bind_eq_bind, Option.bind_eq_some_iff,
      Option.map_eq_some_iff] at h
    obtain ⟨_, ⟨⟨c₁, answer⟩, hstep, rfl⟩, h⟩ := h
    exact (incident_ok hstep).trans (ih h)

/-- The chain a round's transaction finds. -/
theorem await_ok {round : Round} (h : c.await round = some c') :
    Undisturbed c c' ∧ c'.now = round.sentAt := by
  simp only [await, play, List.foldlM_append, List.foldlM_cons, List.foldlM_nil, Option.bind_eq_bind,
    Option.bind_eq_some_iff, Option.map_eq_some_iff, Option.pure_def, Option.some.injEq] at h
  obtain ⟨c₁, hes, _, ⟨⟨c₂, answer⟩, ht, rfl⟩, rfl⟩ := h
  obtain ⟨hu, hnow⟩ := time_ok ht
  exact ⟨(incidents_ok hes).trans hu, hnow⟩

/-- **A compound on the chain**: what it makes of the storage, and whose rewards are gone. -/
theorem compound_ok {view : Deps} {info : MessageInfo} {answer : Option ExecuteAnswer}
    (h : c.step (.call view info (.compound (some limit))) = some (c', answer)) :
    PageHarvested limit c.now c.store c'.store answer ∧
      ∀ i a, (addresses c.store.validators)[i]? = some a →
        InPage c.store limit i ∨ (c.stakeOf a).rewards = 0 → (c'.stakeOf a).rewards = 0 := by
  have hn : Next c (.call view info (.compound (some limit)), answer) c' := h
  rcases step_ok hn with ⟨c₁, _, _, _, store, resp, hen, he, hr, rfl⟩ | ⟨-, ha⟩
  · cases hen with
    | @call _ _ _ b _ _ =>
      have hH := executeCompound_page he
      obtain ⟨k, rfl, hm, -⟩ := executeCompound_ok he
      have hran := runs_ok hr
      refine ⟨hran.store.symm ▸ hH, fun i a hi ha => ?_⟩
      rw [hran.rewards]
      split
      · rfl
      rename_i hpaid
      by_contra hne
      have hne : (c.stakeOf a).rewards ≠ 0 := hne
      -- a validator of the page that has rewards is withdrawn from
      have htake : CosmosMsg.withdrawDelegatorReward a ∈ k.messages :=
        k.takes (mem_pageOf k.stop_eq hi (ha.resolve_right hne))
          fun hz => hne ((rewardsAt_eq view a).symm.trans hz)
      exact hpaid (List.mem_flatMap.2 ⟨_, hm ▸ htake, by simp [CosmosMsg.touched]⟩)
  · cases ha

end Chain

/-! ## One round -/

/-- **The look at the state**: what clear figures mean. -/
theorem queryState_clear {deps : Deps} {env : Env} {st : Storage} {state : StateResponse}
    (h : queryState deps env st = .ok state) : Keeper.looksSwept state = true ↔
      env.time - st.totals.lastSyncTime ≤ st.config.params.syncStaleAfterSecs ∧
        st.totals.pendingRewards = 0 := by
  unfold queryState at h
  simp only [bind_eq_ok, pure_eq_ok] at h
  obtain ⟨pool, -, rate, -, owed, -, rfl⟩ := h
  simp [Keeper.looksSwept, TotalsCache.isUnattended]

/-- **What a round that goes through does.** -/
structure Rounded (limit : ℕ) (round : Round) (s s' : Alone) (state : StateResponse) : Prop where
  round_eq : s'.round = s.round + 1
  sent : ∃ answer, s'.sent = (s.chain.store, answer) :: s.sent ∧
    PageHarvested limit round.sentAt s.chain.store s'.chain.store answer
  emptied : ∀ i a, (addresses s.chain.store.validators)[i]? = some a →
    InPage s.chain.store limit i ∨ (s.chain.stakeOf a).rewards = 0 → (s'.chain.stakeOf a).rewards = 0
  clear : Keeper.looksSwept state = true ↔
    round.askedAt - s'.chain.store.totals.lastSyncTime ≤
        s'.chain.store.config.params.syncStaleAfterSecs ∧
      ∀ v ∈ s'.chain.store.validators, v.pendingRewards = 0

namespace Alone

theorem execute_ok {msg : ExecuteMsg} (h : (client keeper rounds).execute msg s = (t, .ok ())) :
    ∃ c₁ c₂ answer, s.chain.await (rounds s.round) = some c₁ ∧
      c₁.step (.call (rounds s.round).view ⟨keeper, []⟩ msg) = some (c₂, answer) ∧
      t = { s with chain := c₂, sent := (s.chain.store, answer) :: s.sent } := by
  simp only [client, Option.bind_eq_bind] at h
  split at h
  · rename_i c₂ answer htx
    obtain ⟨c₁, hwait, hstep⟩ := Option.bind_eq_some_iff.1 htx
    rw [Prod.mk.injEq] at h
    exact ⟨c₁, c₂, answer, hwait, hstep, h.1.symm⟩
  · simp at h

theorem state_ok {state : StateResponse} (h : (client keeper rounds).state t = (s', .ok state)) :
    ∃ c₁ answer, t.chain.step (.time (rounds t.round).askedAt) = some (c₁, answer) ∧
      queryState (c₁.deps (rounds t.round).view) c₁.env c₁.store = .ok state ∧
      s' = { t with chain := c₁, round := t.round + 1 } := by
  simp only [client] at h
  split at h
  · rename_i c₁ answer hstep
    split at h
    · rename_i state' hq
      rw [Prod.mk.injEq, Except.ok.injEq] at h
      obtain ⟨rfl, rfl⟩ := h
      exact ⟨c₁, answer, hstep, hq, rfl⟩
    · simp at h
  · simp at h

/-- **A round, inverted.** -/
theorem rounded {state : StateResponse}
    (hsend : (client keeper rounds).execute (.compound (some limit)) s = (t, .ok ()))
    (hask : (client keeper rounds).state t = (s', .ok state)) :
    Rounded limit (rounds s.round) s s' state := by
  obtain ⟨c₁, c₂, answer, hwait, hstep, rfl⟩ := execute_ok hsend
  obtain ⟨c₃, _, htime, hquery, rfl⟩ := state_ok hask
  obtain ⟨⟨hst₁, hrew₁⟩, hnow₁⟩ := Chain.await_ok hwait
  obtain ⟨⟨hst₃, hrew₃⟩, hnow₃⟩ := Chain.time_ok htime
  obtain ⟨hpage, hempty⟩ := Chain.compound_ok hstep
  rw [hst₁, hnow₁] at hpage
  rw [hst₁] at hempty
  refine ⟨rfl, ⟨answer, rfl, hst₃.symm ▸ hpage⟩, fun i a hi ha => ?_, ?_⟩
  · rw [hrew₃]
    exact hempty i a hi (by rwa [hrew₁])
  · rw [queryState_clear hquery, show c₃.env.time = c₃.now from rfl, hnow₃]
    refine and_congr_right fun _ => ?_
    rw [Word.eq_zero_iff, hst₃, hpage.mirrored, total, List.sum_eq_zero_iff, List.forall_mem_map]
    simp only [Word.eq_zero_iff]

end Alone

end LstCore
