import LstCore.Main.SweepCoverage
import LstCore.Proof.Posts

/-!
# How old the figures behind a stamp are

A sweep reads the set page by page from the one cursor, and its last page stamps the cache with
its own time, however far behind it the first one is. The first validator of the set is on first
pages alone, and a deposit and a request read everybody. So every figure behind a stamp is recent
exactly when the first page of the sweep is, or some read of everybody (`stamp_fresh_iff`).

* `Timeline`: calls at times that never run back.
* `sweep`: the calls since the cache was last stamped.
* `Tracked`: the invariant of both.
-/

namespace LstCore

open Lib

/-! ## Calls in time -/

namespace Moment

/-- The time of a call. A migration is told none. -/
def time (m : Moment) : ℕ :=
  match m.call with
  | .execute _ env _ _ => env.time
  | .migrate => 0

/-- The call reads the delegation of everybody in the set, as the pricing of a deposit and of a
request does. -/
def readsAll (m : Moment) : Bool :=
  match m.call with
  | .execute _ _ _ .deposit | .execute _ _ _ (.receive ..) => true
  | _ => false

/-- The validators whose delegations the call reads. -/
def reads (m : Moment) : List String :=
  let page (limit : ℕ) :=
    ((addresses m.store.validators).take (m.store.syncCursor + max limit 1)).drop m.store.syncCursor
  match m.call with
  | .execute _ _ _ (.sync limit) => page (limit.getD defaultSyncLimit)
  | .execute _ _ _ (.compound limit) => page (limit.getD defaultCompoundLimit)
  | _ => if m.readsAll then addresses m.store.validators else []

/-- The first page of a sweep. -/
def begins (m : Moment) : Bool :=
  m.call.pages && decide (m.store.syncCursor = 0)

/-- The last page of a sweep, which stamps the cache. -/
def stamps (m : Moment) : Bool :=
  match m.call, m.resp.data with
  | .execute _ _ _ (.sync _), some (.sync _ _ true) => true
  | .execute _ _ _ (.compound _), some (.compound _ _ _ true) => true
  | _, _ => false

/-- A read as old as the parameters allow, or younger, when the cache is stamped. -/
def RecentAt (stamp n : Moment) : Prop :=
  stamp.time ≤ n.time + stamp.store.config.params.syncStaleAfterSecs

instance (stamp n : Moment) : Decidable (stamp.RecentAt n) :=
  inferInstanceAs (Decidable (_ ≤ _))

end Moment

/-- **The calls since the contract was instantiated**, the newest first, at times that never run
back, the storage they have led to and the time they have. -/
inductive Timeline : List Moment → Storage → ℕ → Prop
  | opens {st : Storage} {now : ℕ} (h : Instantiated st) : Timeline [] st now
  | call {log : List Moment} {st st' : Storage} {now time : ℕ} {call : Call} {resp : Response}
      (h : Timeline log st now) (hs : Step st (call, resp) st') (hn : now ≤ time)
      (ht : ∀ deps env info msg, call = .execute deps env info msg → env.time = time) :
      Timeline (⟨st, call, resp⟩ :: log) st' time

/-- The calls since the cache was last stamped. -/
def sweep (log : List Moment) : List Moment :=
  log.takeWhile fun m => !m.stamps

/-- Whoever was in the set throughout the sweep that a stamp completes has been read recently. -/
def FreshAt (log : List Moment) (stamp : Moment) : Prop :=
  ∀ a, (∀ n ∈ stamp :: sweep log, n.call.pages = true → a ∈ addresses n.store.validators) →
    ∃ n ∈ stamp :: log, a ∈ n.reads ∧ stamp.RecentAt n

/-- The sweep that a stamp completes began recently, or everybody was read recently. -/
def BegunRecently (log : List Moment) (stamp : Moment) : Prop :=
  (∀ n ∈ stamp :: sweep log, n.begins = true → stamp.RecentAt n) ∨
    ∃ n ∈ log, n.readsAll = true ∧ stamp.RecentAt n

variable {st st' : Storage} {log : List Moment} {m n : Moment} {a : String} {call : Call}
  {resp : Response} {now time : ℕ}

theorem Timeline.reachable (h : Timeline log st now) : Reachable st := by
  induction h with
  | opens h => exact ⟨_, [], h, .nil⟩
  | call _ hs _ _ ih => exact ih.step hs

theorem sweep_subset : sweep log ⊆ log :=
  (List.takeWhile_prefix _).subset

theorem sweep_cons (h : m.stamps = false) : sweep (m :: log) = m :: sweep log := by
  rw [sweep, List.takeWhile_cons_of_pos (by rw [h]; rfl)]
  rfl

theorem sweep_stamped (h : m.stamps = true) : sweep (m :: log) = [] := by
  rw [sweep, List.takeWhile_cons_of_neg (by rw [h]; exact Bool.false_ne_true)]

/-- Only a page stamps. -/
theorem Moment.pages_of_stamps (h : m.stamps = true) : m.call.pages = true := by
  unfold Moment.stamps at h
  split at h
  · rename_i hc _
    rw [hc]
    rfl
  · rename_i hc _
    rw [hc]
    rfl
  · cases h

/-- What reads everybody is no page. -/
theorem Moment.reads_all (h : m.readsAll = true) :
    m.reads = addresses m.store.validators ∧ m.call.pages = false := by
  unfold Moment.reads Call.pages
  unfold Moment.readsAll at h ⊢
  split at h <;> rename_i hc <;> simp_all

/-- And what is no page reads everybody or nobody. -/
theorem Moment.readsAll_of_reads (hp : m.call.pages ≠ true) (hr : a ∈ m.reads) :
    m.readsAll = true := by
  unfold Moment.reads at hr
  unfold Call.pages at hp
  split at hr
  · simp_all
  · simp_all
  · by_contra hnot
    rw [if_neg hnot] at hr
    exact absurd hr List.not_mem_nil

/-! ## Pages -/

/-- **A page, read**: where it ends, and where that leaves the cursor and the stamp. -/
structure Paged (m : Moment) (st' : Storage) where
  stop : ℕ
  stop_pos : 0 < stop
  reads_eq : m.reads = ((addresses m.store.validators).take stop).drop m.store.syncCursor
  addresses_eq : addresses st'.validators = addresses m.store.validators
  stamps_eq : m.stamps = decide (m.store.validators.length ≤ stop)
  cursor_eq : st'.syncCursor = if m.stamps then 0 else stop
  time_eq : st'.totals.lastSyncTime = if m.stamps then m.time else m.store.totals.lastSyncTime

theorem addresses_length (set : List ValidatorEntry) : (addresses set).length = set.length := by
  rw [LstCore.addresses_eq, List.length_map]

/-- A page is the same with its end at the end of the set. -/
theorem page_reads {cursor limit stop : ℕ} {set : List ValidatorEntry}
    (h : pageEnd cursor limit set = .ok stop) :
    ((addresses set).take (cursor + max limit 1)).drop cursor =
      ((addresses set).take stop).drop cursor := by
  rw [pageEnd_eq h, ← addresses_length, ← List.take_eq_take_min]

theorem pageEnd_pos {cursor limit stop : ℕ} {set : List ValidatorEntry} (hne : set ≠ [])
    (h : pageEnd cursor limit set = .ok stop) : 0 < stop := by
  have := pageEnd_eq h
  have := List.length_pos_of_ne_nil hne
  omega

/-- **A page, inverted.** -/
theorem Step.paged (hR : Reachable st) (hs : Step st (call, resp) st') (hp : call.pages = true) :
    Nonempty (Paged ⟨st, call, resp⟩ st') := by
  have hne : st.validators ≠ [] := List.ne_nil_of_length_pos (Nat.zero_lt_of_lt hR.manned.cursor)
  unfold Call.pages at hp
  split at hp
  · rename_i deps env info limit
    have he : executeSync deps env limit st = .ok (st', resp) := hs
    obtain ⟨_, _, done, hd, ht⟩ := executeSync_stamp he
    obtain ⟨s, rfl, -, hans⟩ := executeSync_ok he
    rw [hd, Option.some.injEq, Synced.answer, ExecuteAnswer.sync.injEq] at hans
    have hst : (Moment.mk st (.execute deps env info (.sync limit)) resp).stamps = done := by
      simp only [Moment.stamps, hd]
      cases done <;> rfl
    refine ⟨s.stop, pageEnd_pos hne s.stop_eq, page_reads s.stop_eq,
      addresses_of_roster s.roster_next, ?_, ?_, ?_⟩
    · rw [hst, hans.2.2, s.length_next]
    · rw [hst, hans.2.2]
      simp only [Synced.next, decide_eq_true_eq]
    · rw [hst, ht]
      rfl
  · rename_i deps env info limit
    have he : executeCompound deps env limit st = .ok (st', resp) := hs
    obtain ⟨_, _, _, done, hd, ht⟩ := executeCompound_stamp he
    obtain ⟨c, rfl, -, hans⟩ := executeCompound_ok he
    rw [hd, Option.some.injEq, Compounded.answer, ExecuteAnswer.compound.injEq] at hans
    have hst : (Moment.mk st (.execute deps env info (.compound limit)) resp).stamps = done := by
      simp only [Moment.stamps, hd]
      cases done <;> rfl
    refine ⟨c.stop, pageEnd_pos hne c.stop_eq, page_reads c.stop_eq,
      addresses_of_roster c.roster_next, ?_, ?_, ?_⟩
    · rw [hst, hans.2.2.2, c.length_next]
    · rw [hst, hans.2.2.2]
      simp only [Compounded.next, decide_eq_true_eq]
    · rw [hst, ht]
      rfl
  · cases hp

/-! ## The invariant -/

/-- **What the calls have read, and when**: of everybody behind the cursor a page of the sweep, and
of a page of the sweep nothing before its first. -/
structure Tracked (log : List Moment) (st : Storage) (now : ℕ) : Prop where
  past : ∀ n ∈ log, n.time ≤ now
  grown : ∀ n ∈ log, addresses n.store.validators <+: addresses st.validators
  peopled : ∀ n ∈ log, n.store.validators ≠ []
  idle : st.syncCursor = 0 → ∀ n ∈ sweep log, n.call.pages = false
  begun : st.syncCursor ≠ 0 → ∃ b ∈ sweep log, b.begins = true
  behind : ∀ a ∈ (addresses st.validators).take st.syncCursor,
    ∃ n ∈ sweep log, n.call.pages = true ∧ a ∈ n.reads
  after : ∀ b ∈ sweep log, b.begins = true → ∀ n ∈ sweep log, n.call.pages = true → b.time ≤ n.time
  before : ∀ b ∈ sweep log, b.begins = true → ∀ n ∈ log, n.time ≤ b.time ∨
    n.begins = false ∧ addresses b.store.validators <+: addresses n.store.validators

namespace Tracked

theorem nil (hc : st.syncCursor = 0) : Tracked [] st now where
  past := by simp
  grown := by simp
  peopled := by simp
  idle _ := by simp [sweep]
  begun h := absurd hc h
  behind := by simp [hc]
  after := by simp [sweep]
  before := by simp [sweep]

/-- The parts that no stamp forgets. -/
theorem cons_past (h : Tracked log st now) (hn : now ≤ time) (ht : m.time ≤ time) :
    ∀ n ∈ m :: log, n.time ≤ time :=
  List.forall_mem_cons.2 ⟨ht, fun n hmem => (h.past n hmem).trans hn⟩

theorem cons_grown (h : Tracked log st now) (hm : m.store = st)
    (ha : addresses st.validators <+: addresses st'.validators) :
    ∀ n ∈ m :: log, addresses n.store.validators <+: addresses st'.validators :=
  List.forall_mem_cons.2 ⟨hm ▸ ha, fun n hmem => (h.grown n hmem).trans ha⟩

/-- A call that is no page. -/
theorem unpaged (h : Tracked log st now) (hn : now ≤ time) (ht : m.time ≤ time) (hm : m.store = st)
    (hp : m.call.pages = false) (hc : st'.syncCursor = st.syncCursor) {new : List String}
    (hnew : addresses st'.validators = addresses st.validators ++ new)
    (hlt : st.syncCursor < st.validators.length) : Tracked (m :: log) st' time := by
  have hns : m.stamps = false := by
    cases hs : m.stamps
    · rfl
    · rw [m.pages_of_stamps hs] at hp
      cases hp
  have hnb : m.begins = false := by rw [Moment.begins, hp, Bool.false_and]
  have hgrown := h.cons_grown hm ⟨new, hnew.symm⟩
  refine ⟨h.cons_past hn ht, hgrown, ?_, ?_, ?_, ?_, ?_, ?_⟩
  · exact List.forall_mem_cons.2 ⟨hm ▸ List.ne_nil_of_length_pos (Nat.zero_lt_of_lt hlt), h.peopled⟩
  · rw [hc, sweep_cons hns]
    exact fun h0 => List.forall_mem_cons.2 ⟨hp, h.idle h0⟩
  · rw [hc, sweep_cons hns]
    exact fun h0 => let ⟨b, hb, hbegins⟩ := h.begun h0
      ⟨b, List.mem_cons_of_mem _ hb, hbegins⟩
  · rw [hc, hnew, sweep_cons hns,
      List.take_append_of_le_length (by rw [addresses_length]; exact hlt.le)]
    exact fun a ha => let ⟨n, hn, hread⟩ := h.behind a ha
      ⟨n, List.mem_cons_of_mem _ hn, hread⟩
  · rw [sweep_cons hns]
    rintro b hb hbegins n hn hpage
    rcases List.mem_cons.1 hb with rfl | hb
    · simp [hnb] at hbegins
    · rcases List.mem_cons.1 hn with rfl | hn
      · simp [hp] at hpage
      · exact h.after b hb hbegins n hn hpage
  · rw [sweep_cons hns]
    rintro b hb hbegins n hn
    rcases List.mem_cons.1 hb with rfl | hb'
    · simp [hnb] at hbegins
    · rcases List.mem_cons.1 hn with rfl | hn
      · exact .inr ⟨hnb, hm ▸ h.grown b (sweep_subset hb')⟩
      · exact h.before b hb' hbegins n hn

/-- A page, of a sweep that it begins or goes on with. -/
theorem paged (h : Tracked log st now) (hn : now ≤ m.time) (hm : m.store = st)
    (hp : m.call.pages = true) (p : Paged m st') (hlt : st.syncCursor < st.validators.length) :
    Tracked (m :: log) st' m.time := by
  have haddr : addresses st'.validators = addresses st.validators := hm ▸ p.addresses_eq
  have hgrown := h.cons_grown hm ⟨[], by rw [haddr, List.append_nil]⟩
  have hpeopled : ∀ n ∈ m :: log, n.store.validators ≠ [] :=
    List.forall_mem_cons.2 ⟨hm ▸ List.ne_nil_of_length_pos (Nat.zero_lt_of_lt hlt), h.peopled⟩
  have hpast := h.cons_past hn (le_refl m.time)
  cases hs : m.stamps with
  | true =>
    have hc := p.cursor_eq
    rw [hs, if_pos rfl] at hc
    refine ⟨hpast, hgrown, hpeopled, ?_, fun h0 => absurd hc h0, ?_, ?_, ?_⟩
    all_goals simp [sweep_stamped hs, hc]
  | false =>
    have hc := p.cursor_eq
    rw [hs, if_neg Bool.false_ne_true] at hc
    -- the sweep begins here, or it has begun
    have hfirst : m.begins = decide (st.syncCursor = 0) := by
      rw [Moment.begins, hp, hm, Bool.true_and]
    refine ⟨hpast, hgrown, hpeopled, fun h0 => absurd (hc.symm.trans h0) p.stop_pos.ne', ?_, ?_, ?_, ?_⟩
    · rw [sweep_cons hs]
      intro _
      by_cases h0 : st.syncCursor = 0
      · exact ⟨m, List.mem_cons_self, by rw [hfirst, decide_eq_true h0]⟩
      · obtain ⟨b, hb, hbegins⟩ := h.begun h0
        exact ⟨b, List.mem_cons_of_mem _ hb, hbegins⟩
    · rw [sweep_cons hs, haddr, hc]
      intro a ha
      rcases @mem_take_pages a _ m.store.syncCursor _ ha with hold | hnew
      · rw [hm] at hold
        obtain ⟨n, hn, hread⟩ := h.behind a hold
        exact ⟨n, List.mem_cons_of_mem _ hn, hread⟩
      · exact ⟨m, List.mem_cons_self, hp, by rw [p.reads_eq, hm]; exact hm ▸ hnew⟩
    · rw [sweep_cons hs]
      rintro b hb hbegins n hn hpage
      rcases List.mem_cons.1 hn with rfl | hn'
      · exact hpast b (List.cons_subset_cons _ sweep_subset hb)
      · rcases List.mem_cons.1 hb with rfl | hb'
        · rw [hfirst, decide_eq_true_eq] at hbegins
          simp [h.idle hbegins n hn'] at hpage
        · exact h.after b hb' hbegins n hn' hpage
    · rw [sweep_cons hs]
      rintro b hb hbegins n hn
      rcases List.mem_cons.1 hb with rfl | hb'
      · exact .inl (hpast n hn)
      · rcases List.mem_cons.1 hn with rfl | hn'
        · refine .inr ⟨?_, hm ▸ h.grown b (sweep_subset hb')⟩
          -- a sweep that has begun has moved the cursor
          by_contra hb0
          rw [Bool.not_eq_false, hfirst, decide_eq_true_eq] at hb0
          have := h.idle hb0 b hb'
          rw [Moment.begins, this, Bool.false_and] at hbegins
          cases hbegins
        · exact h.before b hb' hbegins n hn'

end Tracked

/-- **The invariant holds at any time.** -/
theorem Timeline.tracked (h : Timeline log st now) : Tracked log st now := by
  induction h with
  | opens hi =>
    obtain ⟨deps, env, info, msg, resp, hi⟩ := hi
    obtain ⟨config, -, -, -, -, -, rfl⟩ := instantiate_ok hi
    exact .nil rfl
  | @call log st st' now time call resp h hs hn ht ih =>
    have hR := h.reachable
    cases hp : call.pages with
    | false =>
      obtain ⟨hc, new, hnew⟩ := Step.unpaged hR hs hp
      refine ih.unpaged hn ?_ rfl hp hc hnew hR.manned.cursor
      cases call with
      | migrate => exact Nat.zero_le _
      | execute deps env info msg => exact (ht _ _ _ _ rfl).le
    | true =>
      obtain ⟨p⟩ := Step.paged hR hs hp
      cases call with
      | migrate => cases hp
      | execute deps env info msg =>
        obtain rfl := ht _ _ _ _ rfl
        exact ih.paged hn rfl hp p hR.manned.cursor

/-! ## The stamp -/

/-- The first validator of the set is on first pages alone. -/
theorem begins_of_reads_head {l : List String} (hnd : (addresses m.store.validators).Nodup)
    (hl : addresses m.store.validators = a :: l) (hp : m.call.pages = true) (hr : a ∈ m.reads) :
    m.begins = true := by
  have hpage : ∃ stop, a ∈ ((addresses m.store.validators).take stop).drop m.store.syncCursor := by
    unfold Call.pages at hp
    unfold Moment.reads at hr
    split at hr
    · exact ⟨_, hr⟩
    · exact ⟨_, hr⟩
    · simp_all
  obtain ⟨stop, ha⟩ := hpage
  rw [Moment.begins, hp, Bool.true_and, decide_eq_true_eq]
  by_contra h0
  -- behind the cursor is the first, and nobody is there twice
  have hbehind : a ∈ (addresses m.store.validators).take m.store.syncCursor := by
    obtain ⟨k, hk⟩ := Nat.exists_eq_succ_of_ne_zero h0
    rw [hl, hk, List.take_succ_cons]
    exact List.mem_cons_self
  refine (List.disjoint_take_drop hnd le_rfl hbehind) ?_
  exact (List.take_sublist _ _).drop _ |>.subset ha

theorem head_of_prefix {l l' : List String} (h : l' <+: a :: l) (hne : l' ≠ []) :
    ∃ l₁, l' = a :: l₁ := by
  cases l' with
  | nil => exact absurd rfl hne
  | cons x l₁ =>
    rw [(List.cons_prefix_cons.1 h).1]
    exact ⟨l₁, rfl⟩

theorem Moment.pages_of_begins (h : m.begins = true) : m.call.pages = true :=
  (Bool.and_eq_true_iff.1 h).1

theorem Moment.RecentAt.mono {n' : Moment} (h : m.RecentAt n) (ht : n.time ≤ n'.time) :
    m.RecentAt n' :=
  h.trans (Nat.add_le_add_right ht _)

/-- If the sweep began long ago, so did whoever else read the first validator of the set. -/
theorem Tracked.begunRecently (h : Tracked log st now) (hR : Reachable st) (hm : m.store = st)
    (hp : m.call.pages = true) (hfresh : FreshAt log m) : BegunRecently log m := by
  have hself : m.RecentAt m := Nat.le_add_right _ _
  by_contra hnot
  simp only [BegunRecently, not_or, not_forall, not_exists, not_and] at hnot
  obtain ⟨⟨b, hbm, hbegins, hold⟩, hnone⟩ := hnot
  have hb : b ∈ sweep log := (List.mem_cons.1 hbm).resolve_left fun he => hold (he ▸ hself)
  obtain ⟨a, l, hl⟩ : ∃ a l, addresses st.validators = a :: l := by
    refine List.exists_cons_of_length_pos ?_
    rw [addresses_length]
    exact Nat.zero_lt_of_lt hR.manned.cursor
  have hnd := hR.slotted.distinct
  -- it has been the first at every call
  have hfirst : ∀ n ∈ log, ∃ l', addresses n.store.validators = a :: l' := fun n hn => by
    refine head_of_prefix (hl ▸ h.grown n hn) fun hnil => h.peopled n hn ?_
    rw [← List.length_eq_zero_iff, ← addresses_length, hnil, List.length_nil]
  have hthere : ∀ n ∈ m :: sweep log, n.call.pages = true → a ∈ addresses n.store.validators := by
    refine List.forall_mem_cons.2 ⟨fun _ => ?_, fun n hn _ => ?_⟩
    · rw [hm, hl]
      exact List.mem_cons_self
    · obtain ⟨l', hl'⟩ := hfirst n (sweep_subset hn)
      rw [hl']
      exact List.mem_cons_self
  obtain ⟨n, hn, hread, hrecent⟩ := hfresh a hthere
  rcases List.mem_cons.1 hn with rfl | hn
  · -- the stamp itself read it only if it began the sweep
    have hbegun := begins_of_reads_head (hm ▸ hnd) (hm ▸ hl) hp hread
    rw [Moment.begins, hp, Bool.true_and, decide_eq_true_eq, hm] at hbegun
    exact absurd (Moment.pages_of_begins hbegins) (by rw [h.idle hbegun b hb]; exact Bool.false_ne_true)
  · rcases h.before b hb hbegins n hn with hle | ⟨hnb, -⟩
    · exact hold (hrecent.mono hle)
    · obtain ⟨l', hl'⟩ := hfirst n hn
      have hnp : n.call.pages ≠ true := fun hpage => by
        rw [begins_of_reads_head (hnd.sublist (h.grown n hn).sublist) hl' hpage hread] at hnb
        cases hnb
      exact hnone n hn (Moment.readsAll_of_reads hnp hread) hrecent

/-- And whoever the sweep has been through was read no longer ago than it began. -/
theorem Tracked.freshAt (h : Tracked log st now) (hm : m.store = st) (p : Paged m st')
    (hp : m.call.pages = true) (hs : m.stamps = true) (hrecent : BegunRecently log m) :
    FreshAt log m := by
  intro a hin
  have ha : a ∈ addresses st.validators := hm ▸ hin m List.mem_cons_self hp
  rw [← List.take_append_drop st.syncCursor (addresses _), List.mem_append] at ha
  rcases ha with hbehind | hahead
  · obtain ⟨n, hn, hpage, hread⟩ := h.behind a hbehind
    have h0 : st.syncCursor ≠ 0 := fun h0 => by simp [h0] at hbehind
    obtain ⟨b, hb, hbegins⟩ := h.begun h0
    have hage := h.after b hb hbegins n hn hpage
    have hread' : m.RecentAt b → ∃ n ∈ m :: log, a ∈ n.reads ∧ m.RecentAt n := fun hbrecent =>
      ⟨n, List.mem_cons_of_mem _ (sweep_subset hn), hread, hbrecent.mono hage⟩
    rcases hrecent with hfirst | ⟨k, hk, hall, hkrecent⟩
    · exact hread' (hfirst b (List.mem_cons_of_mem _ hb) hbegins)
    · rcases h.before b hb hbegins k hk with hle | ⟨-, hpre⟩
      · exact hread' (hkrecent.mono hle)
      · -- everybody was read since the sweep began
        refine ⟨k, List.mem_cons_of_mem _ hk, ?_, hkrecent⟩
        rw [(Moment.reads_all hall).1]
        exact hpre.subset (hin b (List.mem_cons_of_mem _ hb) (Moment.pages_of_begins hbegins))
  · -- the last page goes up to the end of the set
    refine ⟨m, List.mem_cons_self, ?_, Nat.le_add_right _ _⟩
    have hend := p.stamps_eq
    rw [hs, eq_comm, decide_eq_true_eq, hm] at hend
    rw [p.reads_eq, hm, List.take_of_length_le (by rwa [addresses_length])]
    exact hahead

/-- **A stamp and the figures behind it.** When a sync or a compound completes a sweep and stamps
the cache, everybody who was in the set throughout the sweep has been read within the time that the
parameters allow exactly when the first page of the sweep is that recent, or a deposit or a request
is. -/
theorem stamp_fresh_iff (h : Timeline log st now) (hs : Step st (call, resp) st')
    (hc : (Moment.mk st call resp).stamps = true) :
    st'.totals.lastSyncTime = (Moment.mk st call resp).time ∧
      (FreshAt log ⟨st, call, resp⟩ ↔ BegunRecently log ⟨st, call, resp⟩) := by
  have hp := Moment.pages_of_stamps hc
  obtain ⟨p⟩ := Step.paged h.reachable hs hp
  refine ⟨?_, h.tracked.begunRecently h.reachable rfl hp, h.tracked.freshAt rfl p hp hc⟩
  rw [p.time_eq, if_pos hc]

/-! ## Pages far apart -/

/-- A call to the contract some seconds after the deployment, with the chain as the seed leaves
it. -/
def devCallAt (secs : ℕ) (sender : Addr) (msg : ExecuteMsg) : Call :=
  .execute (devView (Uint128.new 10000000) [("validatorone", Uint128.new 10000000, 0)])
    ⟨devStart + secs, devSelf⟩
    ⟨sender, if sender = "keeper" then [] else [⟨"uscrt", Uint128.new 10000000⟩]⟩ msg

/-- The moment of a call. -/
def devMomentAt (st : Storage) (call : Call) : Option (Storage × Moment) :=
  (call.run st).toOption.map fun r => (r.1, ⟨st, call, r.2⟩)

/-- The seed and then the pages, some seconds after the deployment. -/
def devPages (pages : List (ℕ × ExecuteMsg)) : Option (Storage × List Moment × ℕ) :=
  ((0, "deployer", .bootstrap "token" "tokenhash") :: pages.map fun p => (p.1, "keeper", p.2)).foldlM
    (fun s c => if s.2.2 ≤ devStart + c.1 then
        (devMomentAt s.1 (devCallAt c.1 c.2.1 c.2.2)).map fun r => (r.1, r.2 :: s.2.1, devStart + c.1)
      else none) (devWorld.store, [], devStart)

theorem devMomentAt_ok (h : devMomentAt st call = some (st', m)) :
    ∃ resp, m = ⟨st, call, resp⟩ ∧ Step st (call, resp) st' := by
  obtain ⟨⟨s, resp⟩, hr, he⟩ := Option.map_eq_some_iff.1 h
  rw [Prod.mk.injEq] at he
  obtain ⟨rfl, rfl⟩ := he
  exact ⟨_, rfl, toOption_eq_some.1 hr⟩

theorem devPages_ok {pages : List (ℕ × ExecuteMsg)} (h : devPages pages = some (st, log, now)) :
    Timeline log st now := by
  refine (Run.of_foldlM h).inv (P := fun s => Timeline s.2.1 s.1 s.2.2)
    (.opens devWorld_fresh.instantiated) ?_
  rintro ⟨st, log, now⟩ ⟨secs, sender, msg⟩ ⟨st', log', now'⟩ hl hstep
  dsimp only at hstep hl
  split at hstep
  · rename_i hn
    obtain ⟨⟨s, m⟩, hm, he⟩ := Option.map_eq_some_iff.1 hstep
    simp only [Prod.mk.injEq] at he
    obtain ⟨rfl, rfl, rfl⟩ := he
    obtain ⟨resp, rfl, hs⟩ := devMomentAt_ok hm
    refine hl.call hs hn fun deps env info msg hc => ?_
    cases hc
    rfl
  · cases hstep

/-- The last page of a sweep whose first one comes a minute after the deployment. -/
def devStamp (secs : ℕ) : Option (List Moment × Moment) := do
  let s ← devPages [(60, .sync (some 1))]
  let r ← devMomentAt s.1 (devCallAt secs "keeper" (.sync (some 3)))
  if s.2.2 ≤ r.2.time ∧ r.2.stamps = true then some (s.2.1, r.2) else none

theorem devStamp_ok {secs : ℕ} (h : devStamp secs = some (log, m)) :
    ∃ st st' now call resp, m = ⟨st, call, resp⟩ ∧ Timeline log st now ∧ Step st (call, resp) st' ∧
      now ≤ m.time ∧ m.stamps = true := by
  unfold devStamp at h
  simp only [Option.bind_eq_bind, Option.bind_eq_some_iff] at h
  obtain ⟨⟨st, l, now⟩, hs, ⟨st', k⟩, hm, h⟩ := h
  split at h
  · rename_i hk
    simp only [Option.some.injEq, Prod.mk.injEq] at h
    obtain ⟨rfl, rfl⟩ := h
    obtain ⟨resp, rfl, hstep⟩ := devMomentAt_ok hm
    exact ⟨st, st', now, _, resp, rfl, devPages_ok hs, hstep, hk⟩
  · cases h

set_option maxRecDepth 10000 in
/-- Five minutes later, everybody has been read recently. -/
theorem stamp_fresh_iff_soon : ∃ (log : List Moment) (st st' : Storage) (now : ℕ) (m : Moment),
    Timeline log st now ∧ Step st (m.call, m.resp) st' ∧ m.store = st ∧ m.stamps = true ∧
    st'.totals.lastSyncTime = devStart + 360 ∧ FreshAt log m := by
  have hrun : (devStamp 360).map (fun (s : List Moment × Moment) => (s.2.time,
      decide (∀ n ∈ s.2 :: sweep s.1, n.begins = true → s.2.RecentAt n))) =
      some (devStart + 360, true) := by decide +kernel
  obtain ⟨⟨log, m⟩, hw, hs⟩ := Option.map_eq_some_iff.1 hrun
  simp only [Prod.mk.injEq, decide_eq_true_eq] at hs
  obtain ⟨htime, hrecent⟩ := hs
  obtain ⟨st, st', now, call, resp, rfl, ht, hstep, -, hc⟩ := devStamp_ok hw
  obtain ⟨hstamp, hiff⟩ := stamp_fresh_iff ht hstep hc
  exact ⟨log, st, st', now, _, ht, hstep, rfl, hc, hstamp.trans htime, hiff.2 (.inl hrecent)⟩

set_option maxRecDepth 10000 in
/-- The second page comes three hours after the first and stamps the cache with its own time: the
first validator was read three hours before, and the figures may be two hours old. -/
theorem stamp_over_stale : ¬ ∀ (log : List Moment) (st st' : Storage) (now : ℕ) (call : Call)
    (resp : Response), Timeline log st now → Step st (call, resp) st' →
    now ≤ (Moment.mk st call resp).time → (Moment.mk st call resp).stamps = true →
    FreshAt log ⟨st, call, resp⟩ := by
  have hrun : (devStamp 10860).map (fun (s : List Moment × Moment) =>
      (decide (∀ n ∈ s.2 :: sweep s.1, n.call.pages = true →
          "validatorone" ∈ addresses n.store.validators),
        decide (∃ n ∈ s.2 :: s.1, "validatorone" ∈ n.reads ∧ s.2.RecentAt n))) =
      some (true, false) := by decide +kernel
  obtain ⟨⟨log, m⟩, hw, hs⟩ := Option.map_eq_some_iff.1 hrun
  simp only [Prod.mk.injEq, decide_eq_true_eq, decide_eq_false_iff_not] at hs
  obtain ⟨hthere, hnot⟩ := hs
  obtain ⟨st, st', now, call, resp, rfl, ht, hstep, hn, hc⟩ := devStamp_ok hw
  exact fun hall => hnot (hall log st st' now call resp ht hstep hn hc _ hthere)

end LstCore
