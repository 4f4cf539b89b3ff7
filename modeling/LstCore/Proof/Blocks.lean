import LstCore.Proof.Effect
import LstCore.Queue.Times
import LstCore.Spec.Blocks

/-!
# The contract block by block

* `Terms`: what the parameter check leaves of the window length, the period and the ceiling.
* `Paced`: in every block the windows keep their times and a validator's live entries are a
  window length apart (`Along.paced`).
* `Paced.due_length_le`: when the open window is due, a validator has at most as many live
  entries as windows close in one unbonding period.
-/

namespace LstCore

open Lib

variable {st st' : Storage}

/-! ## The terms -/

/-- How many windows close in one unbonding period, rounded up. -/
def closingsPerPeriod (p : ProtocolParams) : ℕ :=
  (p.unbondingPeriodSecs + p.unbondWindowSecs - 1) / p.unbondWindowSecs

/-- **What the parameter check leaves**: a window has a length, and the windows that close in
one period fit below a ceiling that is below the chain's. -/
structure Terms (p : ProtocolParams) : Prop where
  window_pos : 0 < p.unbondWindowSecs
  concurrent : concurrentEntriesForWindow p.unbondingPeriodSecs p.unbondWindowSecs =
    closingsPerPeriod p
  fits : closingsPerPeriod p + 1 ≤ p.maxUnbondEntriesPerValidator
  below : p.maxUnbondEntriesPerValidator < chainMaxUnbondEntries

theorem Terms.of_validate {p : ProtocolParams} (h : validateParams p = .ok ()) : Terms p := by
  unfold validateParams at h
  simp only [guard_eq_ok, not_or, not_le, not_lt] at h
  obtain ⟨-, ⟨-, hbelow⟩, hneeded, -⟩ := h
  -- a count that does not fit 32 bits is no count of slots
  have hsmall : requiredEntrySlots p.unbondingPeriodSecs p.unbondWindowSecs < u32Max := by
    have : chainMaxUnbondEntries < u32Max := by decide
    omega
  unfold requiredEntrySlots at hneeded hsmall
  have hpos : 0 < p.unbondWindowSecs := by
    by_contra hz
    have hc : concurrentEntriesForWindow p.unbondingPeriodSecs p.unbondWindowSecs = u32Max :=
      if_pos (by omega)
    omega
  have hc : concurrentEntriesForWindow p.unbondingPeriodSecs p.unbondWindowSecs =
      closingsPerPeriod p := by
    unfold concurrentEntriesForWindow at hsmall ⊢
    rw [if_neg (by omega)] at hsmall ⊢
    exact if_pos (by by_contra hbig; simp only [if_neg hbig] at hsmall; omega)
  exact ⟨hpos, hc, by omega, hbelow⟩

theorem SameTerms.closingsPerPeriod (h : SameTerms st st') :
    closingsPerPeriod st'.config.params = closingsPerPeriod st.config.params := by
  unfold LstCore.closingsPerPeriod
  rw [h.period, h.windowSecs]

theorem Terms.same (h : Terms st.config.params) (hs : SameTerms st st') : Terms st'.config.params where
  window_pos := hs.windowSecs ▸ h.window_pos
  concurrent := by rw [hs.period, hs.windowSecs, h.concurrent, hs.closingsPerPeriod]
  fits := by rw [hs.closingsPerPeriod, hs.ceiling]; exact h.fits
  below := hs.ceiling ▸ h.below

theorem step_terms {e : Call × Response} (hB : Booked st) (hs : Step st e st') : SameTerms st st' := by
  obtain ⟨now, ht⟩ := Step.exists_time e
  obtain ⟨-, _, hm⟩ := step_moved hB hs ht
  exact hm.terms

/-- **The terms hold in every reachable storage.** -/
theorem Reachable.terms (h : Reachable st) : Terms st.config.params := by
  refine (h.inv (P := fun st => Booked st ∧ Terms st.config.params) ?_ ?_).2
  · rintro st ⟨deps, env, info, msg, resp, hi⟩
    obtain ⟨config, hc, hp, -, -, -, rfl⟩ := instantiate_ok hi
    refine ⟨booked_initial _ _ _ _, ?_⟩
    unfold checkInstantiate at hc
    rw [bind_eq_ok] at hc
    obtain ⟨_, hpar, -⟩ := hc
    show Terms config.params
    rw [hp]
    exact .of_validate hpar
  · rintro st e st' ⟨hB, hT⟩ hs
    exact ⟨(step_refines hB hs).1, hT.same (step_terms hB hs)⟩

/-! ## Entries -/

section Entries

variable {v : String} {now : ℕ} {l l' : List UnbondEntry} {names : List String}

theorem entriesAt_append : entriesAt v (l ++ l') = entriesAt v l ++ entriesAt v l' :=
  List.filter_append _ _

/-- A validator named once gets one entry. -/
theorem entriesAt_new (hnd : names.Nodup) :
    entriesAt v (newEntries now names) = if v ∈ names then [⟨v, now⟩] else [] := by
  induction names with
  | nil => rfl
  | cons a names ih =>
    obtain ⟨ha, hnd⟩ := List.nodup_cons.1 hnd
    have hcons : entriesAt v (newEntries now (a :: names)) =
        (if a = v then [⟨a, now⟩] else []) ++ entriesAt v (newEntries now names) := by
      by_cases hav : a = v <;> simp [entriesAt, newEntries, hav]
    rw [hcons, ih hnd]
    by_cases hav : a = v
    · subst hav; simp [ha]
    · simp [hav, Ne.symm hav]

end Entries

/-! ## Every block -/

namespace Blocks

variable {b b' : Blocks} {e : BlockEvent} {v : String}

/-- When the open window was opened, which is when the last one closed. -/
def lastClose (b : Blocks) : ℕ := b.store.queue.openedAt b.store.openWindow

/-- **The entries of a block keep the pace of the windows.** -/
structure Paced (b : Blocks) : Prop where
  reachable : Reachable b.store
  short : b.now < u64Max
  timed : b.store.queue.Timed b.store.config.params.unbondingPeriodSecs
    b.store.config.params.unbondWindowSecs b.now
  created : ∀ e ∈ b.entries, e.createdAt ≤ b.lastClose
  spaced : ∀ v, Spaced b.store.config.params.unbondWindowSecs
    ((entriesAt v b.entries).map (·.createdAt))
  /-- An entry was live as every earlier block ended. -/
  live : ∀ e ∈ b.entries, ∀ e' ∈ b.entries, e'.createdAt < b.now →
    e'.createdAt < e.createdAt + b.store.config.params.unbondingPeriodSecs
  few : ∀ v, (entriesAt v b.entries).length ≤ closingsPerPeriod b.store.config.params + 1

namespace Paced

theorem lastClose_le (h : b.Paced) : b.lastClose ≤ b.now := h.timed.openedAt_le _

/-- When the open window is due, every entry is at least a window length old. -/
theorem created_add_le (h : b.Paced)
    (hdue : satAdd64 b.lastClose b.store.config.params.unbondWindowSecs ≤ b.now)
    {e : UnbondEntry} (he : e ∈ b.entries) :
    e.createdAt + b.store.config.params.unbondWindowSecs ≤ b.now := by
  have := h.created e he
  have := h.short
  unfold satAdd64 at hdue
  omega

/-- **When the open window is due**, a validator has at most one period's closings of entries. -/
theorem due_length_le (h : b.Paced)
    (hdue : satAdd64 b.lastClose b.store.config.params.unbondWindowSecs ≤ b.now) (v : String) :
    (entriesAt v b.entries).length ≤ closingsPerPeriod b.store.config.params := by
  have hpos := h.reachable.terms.window_pos
  have hlen := (h.spaced v).length_le (u := b.store.config.params.unbondingPeriodSecs) hpos ?_
  · rwa [List.length_map] at hlen
  · intro x hx y hy
    obtain ⟨e, he, rfl⟩ := List.mem_map.1 hx
    obtain ⟨e', he', rfl⟩ := List.mem_map.1 hy
    have hmem' := (List.mem_filter.1 he').1
    have hold := h.created_add_le hdue hmem'
    -- the younger entry is a window length old, so some block has ended since
    exact h.live e (List.mem_filter.1 he).1 e' hmem' (by omega)

/-- **A block ends** and the next one comes. -/
theorem next {now : ℕ} (h : b.Paced) (hs : b.step (.next now) = some b') : b'.Paced := by
  unfold step at hs
  dsimp only at hs
  split at hs
  · rename_i hnow
    cases hs
    refine ⟨h.reachable, hnow.2, h.timed.mono hnow.1, fun e he => h.created e (List.mem_filter.1 he).1,
      fun v => ?_, fun e he e' he' _ => ?_, fun v => ?_⟩
    · exact (h.spaced v).sublist ((List.filter_sublist.filter _).map _)
    · -- what is still there was live at the end of the block, in which the last one was created
      have hlive := of_decide_eq_true (List.mem_filter.1 he).2
      have := h.created e' (List.mem_filter.1 he').1
      have := h.lastClose_le
      show e'.createdAt < e.createdAt + b.store.config.params.unbondingPeriodSecs
      omega
    · exact (List.filter_sublist.filter _).length_le.trans (h.few v)
  · simp at hs

end Paced

/-- A call within a block, inverted. -/
theorem call_ok {c : Call} (hs : b.step (.call c) = some b') : ∃ store resp,
    (∀ t ∈ c.time, t = b.now) ∧ c.run b.store = .ok (store, resp) ∧
    b' = { b with
      store := store
      entries := b.entries ++ newEntries b.now (undelegatedFrom resp.messages) } := by
  unfold step at hs
  dsimp only at hs
  split at hs
  · rename_i ht
    split at hs
    · rename_i store resp hc
      exact ⟨store, resp, ht, hc, (Option.some.inj hs).symm⟩
    · simp at hs
  · simp at hs

/-- **What a call makes of the times**: the last closing is where it was, or now. A call that
undelegates has closed a window that was due, and names each validator once. -/
theorem Paced.called (h : b.Paced) {c : Call} {store : Storage} {resp : Response}
    (ht : ∀ t ∈ c.time, t = b.now) (hc : c.run b.store = .ok (store, resp)) :
    SameTerms b.store store ∧
    store.queue.Timed b.store.config.params.unbondingPeriodSecs
      b.store.config.params.unbondWindowSecs b.now ∧
    b.lastClose ≤ store.queue.openedAt store.openWindow ∧
    (undelegatedFrom resp.messages).Nodup ∧
    (undelegatedFrom resp.messages ≠ [] →
      satAdd64 b.lastClose b.store.config.params.unbondWindowSecs ≤ b.now ∧
        store.queue.openedAt store.openWindow = b.now) := by
  have hB := h.reachable.booked
  have hstep : Step b.store (c, resp) store := hc
  obtain ⟨-, hist, hm⟩ := step_moved hB hstep ht
  obtain ⟨-, htimed, hor, hcl⟩ := h.timed.run hB.shape hm.run hm.timed
  refine ⟨hm.terms, htimed, ?_, undelegated_nodup hB h.reachable.slotted hstep, fun hne => ?_⟩
  · rcases hor with he | ⟨-, he⟩
    · -- no window was opened, or one was opened now
      exact he.ge
    · exact he ▸ h.lastClose_le
  · obtain ⟨t, m, secs, hmem⟩ := hm.closes fun hnil => hne (by simp [undelegatedFrom, hnil])
    exact hcl t m secs _ hmem

/-- **A call within a block.** -/
theorem Paced.call (h : b.Paced) {c : Call} (hs : b.step (.call c) = some b') : b'.Paced := by
  obtain ⟨store, resp, ht, hc, rfl⟩ := call_ok hs
  obtain ⟨hterms, htimed, hlast, hnd, hund⟩ := h.called ht hc
  have hreach : Reachable store := h.reachable.step (e := (c, resp)) hc
  generalize hnames : undelegatedFrom resp.messages = names at hnd hund
  -- the entries of a call that undelegates are created now
  have hnew : ∀ e ∈ newEntries b.now names, e.createdAt = b.now := by
    intro e he
    obtain ⟨v, -, rfl⟩ := List.mem_map.1 he
    rfl
  have hne : ∀ {e}, e ∈ newEntries b.now names → names ≠ [] := by
    rintro e he rfl
    simp [newEntries] at he
  refine ⟨hreach, h.short, ?_, fun e he => ?_, fun v => ?_, fun e he e' he' hlt => ?_, fun v => ?_⟩
  · simp only [hterms.period, hterms.windowSecs]
    exact htimed
  · show e.createdAt ≤ store.queue.openedAt store.openWindow
    rcases List.mem_append.1 he with he | he
    · exact (h.created e he).trans hlast
    · rw [hnew e he, (hund (hne he)).2]
  · show Spaced store.config.params.unbondWindowSecs _
    rw [hterms.windowSecs, entriesAt_append, entriesAt_new hnd, List.map_append]
    split
    · rename_i hv
      refine (h.spaced v).concat fun x hx => ?_
      obtain ⟨e, he, rfl⟩ := List.mem_map.1 hx
      exact h.created_add_le (hund (List.ne_nil_of_mem hv)).1 (List.mem_filter.1 he).1
    · simpa using h.spaced v
  · show _ < e.createdAt + store.config.params.unbondingPeriodSecs
    rw [hterms.period]
    -- an entry created now is not younger than one that is older than now
    rcases List.mem_append.1 he with he | he
    · rcases List.mem_append.1 he' with he' | he'
      · exact h.live e he e' he' hlt
      · exact absurd (hnew e' he') (Nat.ne_of_lt hlt)
    · have hlt : e'.createdAt < b.now := hlt
      rw [hnew e he]
      omega
  · show _ ≤ closingsPerPeriod store.config.params + 1
    rw [hterms.closingsPerPeriod, entriesAt_append, entriesAt_new hnd, List.length_append]
    -- a new entry comes on top of the few there are when the window is due
    split
    · rename_i hv
      have := h.due_length_le (hund (List.ne_nil_of_mem hv)).1 v
      simpa using this
    · simpa using h.few v

theorem Fresh.paced (h : b.Fresh) : b.Paced := by
  obtain ⟨hnil, hnow, deps, env, info, msg, resp, htime, hi⟩ := h
  have hinst : Instantiated b.store := ⟨_, _, _, _, _, hi⟩
  obtain ⟨config, -, -, -, -, -, hst⟩ := instantiate_ok hi
  have hw : ∀ id w, b.store.queue.windows.lookup id = some w →
      w = Windows.open 0 b.now b.store.config.params.unbondWindowSecs := by
    intro id w hl
    rw [hst] at hl ⊢
    obtain ⟨-, rfl⟩ := (lookup_initial _ _ _ _ id w).1 hl
    rw [← htime]
    rfl
  refine ⟨⟨_, [], hinst, .nil⟩, hnow, ⟨fun id w hl => ?_, fun id w hl => ?_, fun id hid => ?_,
    fun id w hl hs => ?_⟩, by simp [hnil], fun v => ?_, by simp [hnil], by simp [hnil, entriesAt]⟩
  · rw [hw id w hl]; exact Nat.le_refl _
  · rw [hw id w hl]; rfl
  · rw [show b.store.queue.openWindow = 0 by rw [hst]; rfl] at hid
    omega
  · rw [hw id w hl] at hs
    simp [Windows.open] at hs
  · simp [hnil, entriesAt, Spaced.nil]

/-- **Every block is paced.** -/
theorem Along.paced {es : List BlockEvent} (h : Along es b) : b.Paced := by
  obtain ⟨b₀, hf, hr⟩ := h
  refine hr.inv (P := Paced) hf.paced fun b e b' hP hs => ?_
  cases e with
  | call c => exact hP.call hs
  | next now => exact hP.next hs

/-- A replayed history is one. -/
theorem along_replay {es : List BlockEvent} (hf : b.Fresh) (hr : es.foldlM step b = some b') :
    Along es.reverse b' :=
  ⟨b, hf, Run.of_foldlM hr⟩

end Blocks

/-! ## The deployment of the tests, block by block -/

/-- The deployment of the tests in its first block. -/
def devBlocks : Blocks := ⟨devWorld.store, devStart, []⟩

theorem devBlocks_fresh : devBlocks.Fresh :=
  ⟨rfl, by decide, devView 0 [], ⟨devStart, devSelf⟩, ⟨"deployer", []⟩, devInit, ⟨[], none⟩, rfl,
    by rfl⟩

/-- A call at a time. -/
def devCall (now : ℕ) (view : Deps) (sender : Addr) (funds : Uint128) (msg : ExecuteMsg) :
    BlockEvent :=
  .call (.execute view ⟨now, devSelf⟩ ⟨sender, if funds = 0 then [] else [⟨"uscrt", funds⟩]⟩ msg)

/-- The seed, a deposit of 100 SCRT and a withdrawal of 40, and five days later the closing. -/
def devClosing : List BlockEvent :=
  [devCall devStart (devView 0 []) "deployer" (Uint128.new 10000000) (.bootstrap "token" "tokenhash"),
    devCall devStart (devView (Uint128.new 10000000) [("validatorone", Uint128.new 10000000, 0)])
      "user" (Uint128.new 100000000) .deposit,
    devCall devStart devBonded "token" 0 (devUnbond "user" (Uint128.new 40000000)),
    .next (devStart + 5 * 86400),
    devCall (devStart + 5 * 86400) devBonded "keeper" 0 .advanceWindow]

end LstCore
