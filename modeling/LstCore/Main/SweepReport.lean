import LstCore.Lib.Cursor
import LstCore.Proof.Rounds

/-!
# When the keeper calls a sweep finished

The keeper does not read the answer of its compounds. It looks at two cached figures, which are
clear once no validator outside the pages harvested has rewards in the cache and the cache is
not old. What has accrued since the last refresh is in neither. So the sweep it reports is
complete exactly if the page that clears the figures ends the set (`swept_complete_iff`), and
right after a deposit the first page clears them (`swept_too_early`).
-/

namespace LstCore

open Lib

variable {c c' : Chain} {keeper : Addr} {limit : ℕ} {rounds : ℕ → Round} {s s' t : Alone}

/-! ## What the rounds meet -/

/-- The page of round `k` ends the set. -/
def PageEnds (st : Storage) (limit k : ℕ) : Prop :=
  Cursor.Ends st.validators.length (max limit 1) st.syncCursor k

/-- One of the pages of the first `k` rounds has the validator at position `i`. -/
def Visited (st : Storage) (limit k i : ℕ) : Prop :=
  Cursor.Seen st.validators.length (max limit 1) st.syncCursor k i

instance (st : Storage) (limit k : ℕ) : Decidable (PageEnds st limit k) :=
  inferInstanceAs (Decidable (Cursor.Ends ..))

instance (st : Storage) (limit k i : ℕ) : Decidable (Visited st limit k i) :=
  inferInstanceAs (Decidable (Cursor.Seen ..))

/-- When the cache was last refreshed, after `k` rounds: the round that ends the set stamps it. -/
def refreshedAt (st : Storage) (limit : ℕ) (rounds : ℕ → Round) : ℕ → ℕ
  | 0 => st.totals.lastSyncTime
  | k + 1 =>
    if PageEnds st limit k then (rounds k).sentAt else refreshedAt st limit rounds k

/-- The figures are clear when round `k` looks at them: the cache is not old, and no validator
that the pages have left out has rewards in it. -/
def FiguresClear (st : Storage) (limit : ℕ) (rounds : ℕ → Round) (k : ℕ) : Prop :=
  (rounds k).askedAt - refreshedAt st limit rounds (k + 1) ≤ st.config.params.syncStaleAfterSecs ∧
    ∀ i v, st.validators[i]? = some v → v.pendingRewards ≠ 0 → Visited st limit (k + 1) i

/-- The first round to find the figures clear has a page that ends the set. -/
def ClearsAtEnd (st : Storage) (limit : ℕ) (rounds : ℕ → Round) : Prop :=
  ∀ k < Keeper.maxTurns, FiguresClear st limit rounds k →
    (∀ j < k, ¬ FiguresClear st limit rounds j) → PageEnds st limit k

/-! ## What is harvested -/

/-- A compound has worked on the validator, and it has no rewards left. -/
def Alone.Harvested (s : Alone) (a : String) : Prop :=
  (∃ st rewards fee processed done,
      (st, some (.compound rewards fee processed done)) ∈ s.sent ∧
      a ∈ ((addresses st.validators).drop st.syncCursor).take processed) ∧
    (s.chain.stakeOf a).rewards = 0

/-- The last compound answered that it is done, and everybody from the cursor the sweep started
at to the end of the set has been harvested. -/
def Alone.Complete (c : Chain) (s : Alone) : Prop :=
  (∃ st rewards fee processed,
      s.sent.head? = some (st, some (.compound rewards fee processed true))) ∧
    ∀ a ∈ (addresses c.store.validators).drop c.store.syncCursor, s.Harvested a

/-- A run of the task on a chain. -/
def Chain.compounds (c : Chain) (keeper : Addr) (limit : ℕ) (rounds : ℕ → Round) :
    Alone × Except String Keeper.Sweep :=
  Keeper.compound (Alone.client keeper rounds) limit ⟨c, 0, []⟩

/-! ## The loop -/

/-- **What the loop finds.** If every round that goes through keeps an invariant and has clear
figures under a condition on its number, a sweep ends at the first number that meets it. -/
theorem compoundLoop_swept {σ : Type} {client : Keeper.Client σ} (P : ℕ → σ → Prop)
    (Clear : ℕ → Prop)
    (hround : ∀ {k : ℕ} {s t s' : σ} {state : StateResponse}, P k s →
      client.execute (.compound (some limit)) s = (t, .ok ()) → client.state t = (s', .ok state) →
      P (k + 1) s' ∧ (Keeper.looksSwept state = true ↔ Clear k)) :
    ∀ {left k calls : ℕ} {s s' : σ}, P k s →
      Keeper.compoundLoop client limit left k s = (s', .ok (.swept calls)) →
      ∃ j, k ≤ j ∧ j < k + left ∧ P (j + 1) s' ∧ Clear j ∧ ∀ i, k ≤ i → i < j → ¬ Clear i := by
  intro left
  -- on the turns left: each that does not end the sweep hands the invariant on
  induction left with
  | zero =>
    intro k calls s s' _ h
    simp [Keeper.compoundLoop] at h
  | succ left ih =>
    intro k calls s s' hP h
    unfold Keeper.compoundLoop at h
    split at h
    · simp at h
    rename_i t hsend
    split at h
    · simp at h
    rename_i s₁ state hask
    obtain ⟨hP₁, hclear⟩ := hround hP hsend hask
    split at h
    · rename_i hs
      rw [Prod.mk.injEq] at h
      obtain ⟨rfl, -⟩ := h
      exact ⟨k, Nat.le_refl k, by omega, hP₁, hclear.1 hs, fun i hi hlt => by omega⟩
    · rename_i hs
      obtain ⟨j, hkj, hj, hPj, hcj, hfirst⟩ := ih hP₁ h
      refine ⟨j, by omega, by omega, hPj, hcj, fun i hi hlt => ?_⟩
      by_cases he : i = k
      · subst he
        exact fun hc => hs (hclear.2 hc)
      · exact hfirst i (by omega) hlt

namespace Alone

/-! ## After some rounds -/

/-- **After `k` rounds** of a sweep that started on the chain. -/
structure After (c : Chain) (limit : ℕ) (rounds : ℕ → Round) (k : ℕ) (s : Alone) : Prop where
  round : s.round = k
  config : s.chain.store.config = c.store.config
  addresses : addresses s.chain.store.validators = addresses c.store.validators
  cursor : s.chain.store.syncCursor =
    Cursor.position c.store.validators.length (max limit 1) c.store.syncCursor k
  stamp : s.chain.store.totals.lastSyncTime = refreshedAt c.store limit rounds k
  pending : ∀ i, (s.chain.store.validators[i]?).map (·.pendingRewards) =
    (c.store.validators[i]?).map fun v => if Visited c.store limit k i then 0 else v.pendingRewards
  harvested : ∀ i a, (LstCore.addresses c.store.validators)[i]? = some a →
    Visited c.store limit k i → s.Harvested a
  last : ∀ j, k = j + 1 → ∃ st rewards fee processed, s.sent.head? =
    some (st, some (.compound rewards fee processed (decide (PageEnds c.store limit j))))

theorem after_zero : After c limit rounds 0 ⟨c, 0, []⟩ where
  round := rfl
  config := rfl
  addresses := rfl
  cursor := rfl
  stamp := rfl
  pending i := by simp [Visited, Cursor.not_seen_zero]
  harvested _ _ _ hv := absurd hv Cursor.not_seen_zero
  last j hj := by omega

namespace After

variable {k : ℕ} (h : After c limit rounds k s)
include h

theorem length_eq : s.chain.store.validators.length = c.store.validators.length := by
  have := congrArg List.length h.addresses
  rwa [addresses_eq, addresses_eq, List.length_map, List.length_map] at this

theorem lastPage_iff : LastPage s.chain.store limit ↔ PageEnds c.store limit k := by
  unfold LastPage PageEnds Cursor.Ends
  rw [h.length_eq, h.cursor]

theorem visited_succ {i : ℕ} :
    Visited c.store limit (k + 1) i ↔ Visited c.store limit k i ∨ InPage s.chain.store limit i := by
  unfold Visited InPage
  rw [Cursor.seen_succ, h.cursor]

/-- A validator that is harvested stays so, and those of the page are. -/
theorem harvested_next {state : StateResponse} {round : Round}
    (hr : Rounded limit round s s' state) {i : ℕ} {a : String}
    (ha : (LstCore.addresses c.store.validators)[i]? = some a)
    (hv : Visited c.store limit (k + 1) i) : s'.Harvested a := by
  obtain ⟨answer, hsent, hpage⟩ := hr.sent
  have ha' : (LstCore.addresses s.chain.store.validators)[i]? = some a := h.addresses ▸ ha
  rcases h.visited_succ.1 hv with hv | hv
  · obtain ⟨⟨st, rewards, fee, processed, done, hmem, hin⟩, hz⟩ := h.harvested i a ha hv
    exact ⟨⟨st, rewards, fee, processed, done, hsent ▸ List.mem_cons_of_mem _ hmem, hin⟩,
      hr.emptied i a ha' (.inr hz)⟩
  · obtain ⟨rewards, fee, processed, rfl, hproc⟩ := hpage.answer
    have hlt : i < (LstCore.addresses s.chain.store.validators).length :=
      (List.getElem?_eq_some_iff.1 ha').1
    rw [addresses_eq, List.length_map] at hlt
    have hup := hproc i hlt hv
    refine ⟨⟨s.chain.store, rewards, fee, processed, _, hsent ▸ List.mem_cons_self, ?_⟩,
      hr.emptied i a ha' (.inl hv)⟩
    refine List.mem_of_getElem? (i := i - s.chain.store.syncCursor) ?_
    have hlow := hv.1
    rw [List.getElem?_take_of_lt (by omega), List.getElem?_drop,
      show s.chain.store.syncCursor + (i - s.chain.store.syncCursor) = i by omega, ha']

/-- **A round more.** -/
theorem next {state : StateResponse} (hr : Rounded limit (rounds k) s s' state) :
    After c limit rounds (k + 1) s' := by
  obtain ⟨answer, hsent, hpage⟩ := hr.sent
  refine {
    round := by rw [hr.round_eq, h.round]
    config := hpage.config.trans h.config
    addresses := hpage.addresses.trans h.addresses
    cursor := ?_, stamp := ?_, pending := fun i => ?_
    harvested := fun i a ha hv => h.harvested_next hr ha hv, last := ?_ }
  · rw [hpage.cursor, h.cursor]
    exact if_congr h.lastPage_iff rfl rfl
  · rw [hpage.stamp, h.stamp]
    exact if_congr h.lastPage_iff rfl rfl
  · -- what has not been visited is as it was, in both steps
    have hcolumn : (s.chain.store.validators[i]?).map (fun v =>
          if InPage s.chain.store limit i then 0 else v.pendingRewards) =
        ((s.chain.store.validators[i]?).map (·.pendingRewards)).map fun p =>
          if InPage s.chain.store limit i then 0 else p := by
      rw [Option.map_map]
      rfl
    rw [hpage.pending i, hcolumn, h.pending i, Option.map_map]
    congr 1
    funext v
    simp only [Function.comp_apply, h.visited_succ]
    by_cases hin : InPage s.chain.store limit i <;> simp [hin]
  · rintro j hj
    obtain rfl : k = j := by omega
    obtain ⟨rewards, fee, processed, rfl, -⟩ := hpage.answer
    exact ⟨s.chain.store, rewards, fee, processed, by
      rw [hsent, List.head?_cons, decide_eq_decide.2 h.lastPage_iff]⟩

omit h in
/-- The figures are clear at a look exactly if the rounds so far have made them so. -/
theorem clear_iff {state : StateResponse} (h' : After c limit rounds (k + 1) s')
    (hr : Rounded limit (rounds k) s s' state) :
    Keeper.looksSwept state = true ↔ FiguresClear c.store limit rounds k := by
  rw [hr.clear, h'.stamp, h'.config]
  refine and_congr_right fun _ => ?_
  constructor
  · intro hz i v hv hne
    by_contra hnot
    have hp := h'.pending i
    rw [hv, Option.map_some, if_neg hnot, Option.map_eq_some_iff] at hp
    obtain ⟨v', hv', he⟩ := hp
    exact hne (he ▸ hz v' (List.mem_of_getElem? hv'))
  · intro hz v' hv'
    obtain ⟨i, hi⟩ := List.mem_iff_getElem?.1 hv'
    have hp := h'.pending i
    rw [hi, Option.map_some] at hp
    obtain ⟨v, hv, he⟩ := Option.map_eq_some_iff.1 hp.symm
    rw [← he]
    split
    · rfl
    · rename_i hnot
      by_contra hne
      exact hnot (hz i v hv hne)

end After

end Alone

/-- **When a sweep that reports success is complete.** Whatever the state of the contract, its
page limit and the times of its calls, a keeper alone with the chain that reports its sweep as
finished has been answered so last, and has harvested everybody from the cursor it started at to
the end of the set, if and only if the first round to find the figures clear has a page that ends
the set. -/
theorem swept_complete_iff {calls : ℕ}
    (hs : c.compounds keeper limit rounds = (s', .ok (.swept calls))) :
    s'.Complete c ↔ ClearsAtEnd c.store limit rounds := by
  obtain ⟨k, -, hk, hafter, hclear, hfirst⟩ := compoundLoop_swept
    (Alone.After c limit rounds) (FiguresClear c.store limit rounds)
    (fun {k s t s' state} hP hsend hask => by
      have hr := Alone.rounded hsend hask
      rw [hP.round] at hr
      exact ⟨hP.next hr, Alone.After.clear_iff (hP.next hr) hr⟩) Alone.after_zero hs
  obtain ⟨st, rewards, fee, processed, hlast⟩ := hafter.last k rfl
  constructor
  · rintro ⟨⟨_, _, _, _, hdone⟩, -⟩ j hj hclear' hfirst'
    -- the keeper has stopped at the first round to find the figures clear
    have hjk : j = k := by
      rcases Nat.lt_trichotomy j k with hlt | he | hlt
      · exact absurd hclear' (hfirst j (Nat.zero_le j) hlt)
      · exact he
      · exact absurd hclear (hfirst' k hlt)
    subst hjk
    rw [hlast] at hdone
    simp only [Option.some.injEq, Prod.mk.injEq, ExecuteAnswer.compound.injEq, decide_eq_true_eq]
      at hdone
    exact hdone.2.2.2.2
  · intro h
    have hends := h k (by omega) hclear fun j hj => hfirst j (Nat.zero_le j) hj
    refine ⟨⟨st, rewards, fee, processed, by rw [hlast, decide_eq_true hends]⟩, fun a ha => ?_⟩
    obtain ⟨d, hd⟩ := List.mem_iff_getElem?.1 ha
    rw [List.getElem?_drop] at hd
    have hlt : c.store.syncCursor + d < (addresses c.store.validators).length :=
      (List.getElem?_eq_some_iff.1 hd).1
    rw [addresses_eq, List.length_map] at hlt
    exact hafter.harvested _ a hd (Cursor.seen_of_ends hends (Nat.le_add_right _ _) hlt)

/-! ## A sweep that ends too early -/

namespace Chain

/-- The validator that got a deposit earns 10 SCRT. -/
def devEarning : List ChainEvent := [devSeed, devEnter "user" (Uint128.new 1000000000) .deposit,
  .accrue "validatortwo" (Uint128.new 10000000)]

/-- A transaction every minute from a time on, and a look at the state half a minute later. -/
def devMinutes (start k : ℕ) : Round :=
  ⟨[], start + 60 * k, start + 60 * k + 30, devView 0 [], "out of gas"⟩

set_option maxRecDepth 10000 in
/-- After a day without upkeep, two pages of two validators: the cache is too old until the second
of them has ended the set, and the sweep is complete. -/
theorem swept_complete_iff_day : ∃ (c : Chain) (s' : Alone), c.Reaches ∧
    c.compounds "keeper" 2 (devMinutes (devStart + 86400)) = (s', .ok (.swept 2)) ∧
    ClearsAtEnd c.store 2 (devMinutes (devStart + 86400)) ∧ s'.Complete c := by
  have hrun : (devChain.replay devEarning).map (fun r =>
      ((r.1.compounds "keeper" 2 (devMinutes (devStart + 86400))).2.toOption,
        (r.1.store.validators.length, r.1.store.syncCursor, r.1.store.totals.lastSyncTime,
          r.1.store.config.params.syncStaleAfterSecs))) =
      some (some (.swept 2), (4, 0, devStart, 7200)) := by decide +kernel
  obtain ⟨⟨c, h⟩, hr, hs⟩ := Option.map_eq_some_iff.1 hrun
  simp only [Prod.mk.injEq] at hs
  obtain ⟨hs, hlen, hcursor, hstamp, hstale⟩ := hs
  have hs : c.compounds "keeper" 2 (devMinutes (devStart + 86400)) = (_, .ok (.swept 2)) :=
    Prod.ext rfl (toOption_eq_some.1 hs)
  have hends : ∀ k, PageEnds c.store 2 k ↔ Cursor.Ends 4 2 0 k := by
    intro k
    rw [PageEnds, hlen, hcursor]
    rfl
  -- the second look finds a fresh cache and everybody visited
  have hclear : FiguresClear c.store 2 (devMinutes (devStart + 86400)) 1 := by
    refine ⟨?_, fun i v hv _ => ?_⟩
    · rw [refreshedAt, if_pos ((hends 1).2 (by decide)), hstale]
      decide
    · have hi : i < 4 := hlen ▸ (List.getElem?_eq_some_iff.1 hv).1
      have hall : ∀ i < 4, Cursor.Seen 4 2 0 2 i := by decide
      rw [Visited, hlen, hcursor]
      exact hall i hi
  have hat : ClearsAtEnd c.store 2 (devMinutes (devStart + 86400)) := by
    intro k _ hk hfirst
    match k with
    | 0 =>
      have hold := hk.1
      rw [refreshedAt, if_neg fun h => absurd ((hends 0).1 h) (by decide), refreshedAt, hstamp,
        hstale] at hold
      exact absurd hold (by decide)
    | 1 => exact (hends 1).2 (by decide)
    | k + 2 => exact absurd hclear (hfirst 1 (by omega))
  exact ⟨c, _, ⟨devChain, h, devChain_fresh, replay_ok hr⟩, hs, hat, (swept_complete_iff hs).2 hat⟩

set_option maxRecDepth 10000 in
/-- Right after the deposit the first page of one validator clears the figures, and the 10 SCRT
stay where they are. -/
theorem swept_too_early : ¬ ∀ (c : Chain) (keeper : Addr) (limit : ℕ) (rounds : ℕ → Round)
    (s' : Alone) (calls : ℕ), c.Reaches → 1 ≤ limit →
    c.compounds keeper limit rounds = (s', .ok (.swept calls)) → s'.Complete c := by
  have hrun : (devChain.replay devEarning).map (fun r =>
      ((r.1.compounds "keeper" 1 (devMinutes devStart)).2.toOption,
        (r.1.compounds "keeper" 1 (devMinutes devStart)).1.sent.head?.bind (·.2))) =
      some (some (.swept 1), some (.compound 0 0 1 false)) := by decide +kernel
  obtain ⟨⟨c, h⟩, hr, hs⟩ := Option.map_eq_some_iff.1 hrun
  obtain ⟨hs, hlast⟩ := Prod.mk.inj hs
  have hs : c.compounds "keeper" 1 (devMinutes devStart) = (_, .ok (.swept 1)) :=
    Prod.ext rfl (toOption_eq_some.1 hs)
  intro hall
  obtain ⟨⟨st, rewards, fee, processed, hdone⟩, -⟩ :=
    hall c "keeper" 1 (devMinutes devStart) _ 1 ⟨devChain, h, devChain_fresh, replay_ok hr⟩
      (Nat.le_refl 1) hs
  rw [hdone, Option.bind_some, Option.some.injEq] at hlast
  cases hlast

end Chain

end LstCore
