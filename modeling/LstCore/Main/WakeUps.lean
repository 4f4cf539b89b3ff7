import LstCore.Main.DueTasks
import LstCore.Proof.Passes

/-!
# When the keeper wakes

The keeper asks about windows once an interval, and in between it waits for the time that the contract
has published. Nothing that anybody does makes a window close or mature before that time: the open
window keeps its closing time, and what is opened or closed later is due later. So once the window jobs
have found nothing to do, the keeper wakes whenever there is something (`wakes_in_time`).
-/

namespace LstCore

open Lib

/-! ## Nothing is due before a time -/

/-- An open window closes at one time at the earliest, and one that is unbonding matures at another. -/
def UnbondWindow.DueFrom (close mature : ℕ) (w : UnbondWindow) : Prop :=
  (w.state = .open → close ≤ w.closesAt) ∧ (w.state = .unbonding → mature ≤ w.maturesAt)

namespace Queue

variable {q q' : Queue} {close mature now : ℕ} {w w' : UnbondWindow} {m : Move}
  {params : ProtocolParams}

/-- So does every window. -/
def Quiet (close mature : ℕ) (q : Queue) : Prop :=
  ∀ id w, q.windows.lookup id = some w → w.DueFrom close mature

theorem Quiet.put {id : ℕ} (h : q.Quiet close mature) (hq : q'.windows = q.windows.insert id w')
    (hw : w'.DueFrom close mature) : q'.Quiet close mature := by
  intro i v hv
  rw [hq] at hv
  rcases Keymap.put_cases hv with ⟨-, rfl⟩ | ⟨-, hv⟩
  · exact hw
  · exact h i v hv

/-- The window opened next closes no earlier than the one that is due now. -/
theorem Quiet.advance {active : List ℕ} {secs : ℕ} (h : q.Quiet close mature)
    (hw : q.windows.lookup q.openWindow = some w) (hopen : w.state = .open) (hdue : w.closesAt ≤ now)
    (hnow : now < u64Max) (hw' : w'.DueFrom close mature) :
    (q.advance now secs w' active).Quiet close mature := by
  intro i v hv
  rcases advance_cases hv with ⟨-, rfl⟩ | ⟨-, -, rfl⟩ | ⟨-, -, hv⟩
  · refine ⟨fun _ => ?_, fun hs => by cases hs⟩
    have hclose := (h _ w hw).1 hopen
    show close ≤ satAdd64 now secs
    unfold satAdd64
    omega
  · exact hw'
  · exact h i v hv

/-- **A move makes nothing due sooner.** -/
theorem Quiet.step (h : q.Quiet close mature) (hle : mature ≤ close) (hnow : now < u64Max)
    (hs : Step q m q') (hm : m.Timed now params) : q'.Quiet close mature := by
  cases hs with
  | joinNew hw hopen | joinOld hw hopen =>
    have hold := h _ _ hw
    exact h.put rfl hold
  | closeEmpty hw hopen hdue hz =>
    obtain ⟨rfl, -⟩ := hm
    refine h.advance hw hopen hdue hnow ⟨fun hs => ?_, fun hs => ?_⟩ <;> cases hs
  | @close t maturesAt secs used w hw hopen hdue hz =>
    obtain ⟨rfl, rfl, -⟩ := hm
    refine h.advance hw hopen hdue hnow ⟨fun hs => ?_, fun _ => ?_⟩
    · cases hs
    · -- it matures a period from now, and now it is due to close
      have hclose := (h _ w hw).1 hopen
      show mature ≤ satAdd64 t params.unbondingPeriodSecs
      unfold satAdd64
      omega
  | mature hw hs hr =>
    refine h.put rfl ⟨fun hs' => ?_, fun hs' => ?_⟩ <;> cases hs'
  | @pay u id p sc w c hw hs hc hu hp hsc =>
    have hstate : (w.paying sc).state ≠ .open ∧ (w.paying sc).state ≠ .unbonding := by
      rw [UnbondWindow.state_paying, hs]
      split <;> exact ⟨by decide, by decide⟩
    exact h.put (by rfl) ⟨fun hs' => absurd hs' hstate.1, fun hs' => absurd hs' hstate.2⟩

end Queue

namespace Blocks

variable {b b' : Blocks} {close mature : ℕ}

/-- **So does no call, and no block.** -/
theorem Later.quiet (h : Later b b') (hP : b.Paced) (hle : mature ≤ close)
    (hq : b.store.queue.Quiet close mature) : b'.store.queue.Quiet close mature := by
  refine (h.inv (P := fun b => b.store.queue.Quiet close mature) hP hq ?_).2
  intro b e b' hP hq hs
  cases e with
  | call c =>
    obtain ⟨store, resp, ht, hc, rfl⟩ := call_ok hs
    obtain ⟨-, hist, hm⟩ := step_moved hP.reachable.booked (e := (c, resp)) hc ht
    refine hm.run.inv_of_mem (P := fun q => q.Quiet close mature) hq fun q m q' hmem hq hs => ?_
    exact hq.step hle hP.short hs (hm.timed m hmem)
  | next now =>
    unfold Blocks.step at hs
    dsimp only at hs
    split at hs
    · cases hs
      exact hq
    · cases hs

end Blocks

/-! ## What the window tasks report -/

namespace Keeper

variable {σ : Type} {client : Outside σ} {chain : σ → Blocks} {config : KeeperConfig} {limit : ℕ}
  {formatRate toFixed : ℕ → String} {s s' : σ} {d d' : Desk σ} {b : Blocks} {st : Storage} {now : ℕ}
  {o : TaskOutcome}

/-- There is something to send about windows. -/
def WindowWork (limit now : ℕ) (st : Storage) : Prop :=
  (advanceWindow (windows · st) now).sends = some .advanceWindow ∨
    (collectMatured (windows · st) now limit).sends = some (.collectMatured (some limit))

/-- Whatever a decision ends with is an outcome of the task, and sending is work. -/
def Decision.Of (name : String) : Decision → Prop
  | .report outcome => outcome.task = name
  | .send _ outcome => ∀ r, (outcome r).task = name ∧ (outcome r).did = .work

theorem advanceWindow_of (page : Option WindowState → List UnbondWindow) (now : ℕ) :
    (advanceWindow page now).Of "advance-window" := by
  unfold advanceWindow
  split
  · rfl
  · split
    · rfl
    · rintro (error | ⟨⟩) <;> exact ⟨rfl, rfl⟩

theorem collectMatured_of (page : Option WindowState → List UnbondWindow) (now limit : ℕ) :
    (collectMatured page now limit).Of "collect-matured" := by
  unfold collectMatured
  dsimp only
  split
  · rfl
  · rintro (error | ⟨⟩) <;> exact ⟨rfl, rfl⟩

variable {state : WindowState} {name : String}
  {task : (Option WindowState → List UnbondWindow) → ℕ → Decision}

theorem windowTask_name (htask : ∀ page now, (task page now).Of name)
    (h : windowTask client state task s = (s', .ok o)) : o.task = name := by
  obtain ⟨t, ws, -, h⟩ := Act.bind_eq_ok.1 h
  obtain ⟨u, now, -, h⟩ := Act.bind_eq_ok.1 h
  have hof := htask (fun _ => ws) (now / 1000)
  cases hd : task (fun _ => ws) (now / 1000) with
  | report outcome =>
    rw [hd] at h hof
    obtain ⟨-, he⟩ := Prod.mk.inj h
    exact Except.ok.inj he ▸ hof
  | send msg outcome =>
    rw [hd] at h hof
    obtain ⟨v, r, -, h⟩ := Act.bind_eq_ok.1 h
    obtain ⟨-, he⟩ := Prod.mk.inj h
    exact Except.ok.inj he ▸ (hof r).1

/-- A window task that has done nothing has reported so, on the windows of some moment. -/
theorem windowTask_nothing (hf : Follows client chain) (htask : ∀ page now, (task page now).Of name)
    (h : windowTask client state task s = (s', .ok o)) (hn : o.did = .nothing) :
    ∃ t now, Onward chain s t ∧ Onward chain t s' ∧
      task (fun _ => windows (some state) (chain t).store) now = .report o := by
  obtain ⟨t, ws, hws, h⟩ := Act.bind_eq_ok.1 h
  obtain ⟨u, now, hnow, h⟩ := Act.bind_eq_ok.1 h
  obtain rfl := hf.page hws
  have hst := (hf.listed _).ok hws
  have htu := hf.clock.ok hnow
  have hof := htask (fun _ => windows (some state) (chain t).store) (now / 1000)
  cases hd : task (fun _ => windows (some state) (chain t).store) (now / 1000) with
  | report outcome =>
    rw [hd] at h
    obtain ⟨rfl, he⟩ := Prod.mk.inj h
    obtain rfl := Except.ok.inj he
    exact ⟨t, now / 1000, hst, htu, hd⟩
  | send msg outcome =>
    rw [hd] at h hof
    obtain ⟨v, r, -, h⟩ := Act.bind_eq_ok.1 h
    obtain ⟨-, he⟩ := Prod.mk.inj h
    obtain rfl := Except.ok.inj he
    rw [(hof r).2] at hn
    cases hn

/-- The page of open windows starts with the open window. -/
theorem openPage_head {w : UnbondWindow} (hB : Booked st) (hfit : st.nextWindowId ≤ u64Max)
    (hw : st.windows.lookup st.openWindow = some w) : (windows (some .open) st).head? = some w := by
  have hpage : windows (some .open) st = (st.listed (some .open)).take 50 :=
    queryWindows_first hB hfit 50
  obtain ⟨v, vs, hl⟩ := List.exists_cons_of_ne_nil (List.ne_nil_of_mem (hB.mem_open.2 hw))
  have hv : v ∈ st.listed (some .open) := by
    rw [hl]
    exact List.mem_cons_self
  rw [hB.mem_open, hw] at hv
  rw [hpage, hl, ← Option.some.inj hv]
  rfl

/-- What the task about the open window says is due next is when it closes. -/
theorem advanceWindow_next (hB : Booked st) (hfit : st.nextWindowId ≤ u64Max)
    (h : advanceWindow (fun _ => windows (some .open) st) now = .report o) :
    ∃ w, st.windows.lookup st.openWindow = some w ∧ o.nextDue = some (w.closesAt * 1000) := by
  obtain ⟨w, hw, -⟩ := hB.shape.exists_open
  have hw : st.windows.lookup st.openWindow = some w := hw
  refine ⟨w, hw, ?_⟩
  unfold advanceWindow at h
  dsimp only at h
  rw [openPage_head hB hfit hw] at h
  dsimp only at h
  split at h
  · cases h
    rfl
  · cases h

/-- What the task about windows in flight says is due next is when the oldest matures. -/
theorem collectMatured_next (hP : b.Paced)
    (h : collectMatured (fun _ => windows (some .unbonding) b.store) now limit = .report o) :
    (∀ w, b.store.windows.lookup w.id = some w → w.state ≠ .unbonding) ∧ o.nextDue = none ∨
      ∃ w, Oldest b.store w ∧ o.nextDue = some (w.maturesAt * 1000) := by
  have hB := hP.reachable.booked
  have hpage : windows (some .unbonding) b.store = (b.store.listed (some .unbonding)).take 50 :=
    queryWindows_first hB hP.reachable.ids 50
  have hnext : o.nextDue =
      ((windows (some .unbonding) b.store).map (·.maturesAt)).min?.map (· * 1000) := by
    unfold collectMatured at h
    dsimp only at h
    split at h
    · cases h
      rfl
    · cases h
  rw [hnext, hpage]
  rcases hl : b.store.listed (some .unbonding) with _ | ⟨w, ws⟩
  · refine .inl ⟨fun w hw hs => ?_, rfl⟩
    have hmem : w ∈ b.store.listed (some .unbonding) := hB.mem_listed.2 ⟨hw, wanted_some.2 hs⟩
    rw [hl] at hmem
    cases hmem
  · -- the page starts with the oldest, and no other matures before it
    have hold : Oldest b.store w := hB.oldest_head hl
    refine .inr ⟨w, hold, ?_⟩
    have hmin : ((List.take 50 (w :: ws)).map (·.maturesAt)).min? = some w.maturesAt := by
      rw [List.min?_eq_some_iff]
      refine ⟨List.mem_map_of_mem List.mem_cons_self, fun t ht => ?_⟩
      obtain ⟨v, hv, rfl⟩ := List.mem_map.1 ht
      have hv : v ∈ b.store.listed (some .unbonding) := by
        rw [hl]
        exact List.mem_of_mem_take hv
      obtain ⟨hlook, hvs⟩ := hB.mem_listed.1 hv
      exact hP.matures_le hold.1 hold.2.1 hlook (wanted_some.1 hvs)
        (hold.2.2 v hlook (wanted_some.1 hvs))
    rw [hmin]
    rfl

/-! ## Waking -/

/-- By what it has logged, a pass has run the window jobs and they have found nothing to do. -/
structure FoundNothing (lines : List Line) : Prop where
  ran : ∃ o ∈ outcomes lines, o.task = "collect-matured"
  nothing : ∀ o ∈ outcomes lines, o.task = "advance-window" ∨ o.task = "collect-matured" →
    o.did = .nothing

instance (lines : List Line) : Decidable (FoundNothing lines) :=
  decidable_of_iff ((∃ o ∈ outcomes lines, o.task = "collect-matured") ∧
      ∀ o ∈ outcomes lines, o.task = "advance-window" ∨ o.task = "collect-matured" → o.did = .nothing)
    ⟨fun h => ⟨h.1, h.2⟩, fun h => ⟨h.ran, h.nothing⟩⟩

/-- **Two quiet looks.** Nothing is due before the soonest time that they name. -/
theorem soonest_quiet {b₁ b₂ : Blocks} {t₁ t₂ : ℕ} {advanced collected : TaskOutcome} (hP : b₁.Paced)
    (ha : advanceWindow (fun _ => windows (some .open) b₁.store) t₁ = .report advanced)
    (h₁₂ : b₁.Later b₂)
    (hc : collectMatured (fun _ => windows (some .unbonding) b₂.store) t₂ limit = .report collected) :
    ∃ time, soonest [advanced, collected] = some (time * 1000) ∧ b₂.store.queue.Quiet time time := by
  obtain ⟨w, hw, hnext⟩ := advanceWindow_next hP.reachable.booked hP.reachable.ids ha
  have hP₂ := h₁₂.paced hP
  have hB₂ := hP₂.reachable.booked
  -- what is open then closes when the window that is open now does, or later
  have hopen : b₂.store.queue.Quiet w.closesAt 0 := by
    refine h₁₂.quiet hP (Nat.zero_le _) fun id v hv => ⟨fun hs => ?_, fun _ => Nat.zero_le _⟩
    have hid := (hP.reachable.booked.shape.isOpen id v hv).1 hs
    rw [hid] at hv
    have hvw : some v = some w := hv.symm.trans hw
    rw [Option.some.inj hvw]
  rcases collectMatured_next hP₂ hc with ⟨hnone, hnext'⟩ | ⟨v, hold, hnext'⟩
  · refine ⟨w.closesAt, by simp [soonest, hnext, hnext'], fun id x hx => ⟨(hopen id x hx).1, fun hs => ?_⟩⟩
    have hid : x.id = id := hB₂.shape.keyed id x hx
    exact absurd hs (hnone x (hid.symm ▸ hx))
  · refine ⟨min w.closesAt v.maturesAt, ?_, fun id x hx => ⟨fun hs => ?_, fun hs => ?_⟩⟩
    · simp only [soonest, List.filterMap_cons, hnext, hnext', List.filterMap_nil]
      rw [List.min?_cons', List.foldl_cons, List.foldl_nil, Nat.mul_min_mul_right]
    · exact (Nat.min_le_left _ _).trans ((hopen id x hx).1 hs)
    · have hid : x.id = id := hB₂.shape.keyed id x hx
      have hx : b₂.store.windows.lookup x.id = some x := hid.symm ▸ hx
      exact (Nat.min_le_right _ _).trans
        (hP₂.matures_le hold.1 hold.2.1 hx hs (hold.2.2 x hx hs))

/-- Where nothing is due before a time, there is nothing to send before it. -/
theorem WindowWork.le {time : ℕ} (h : WindowWork limit now b.store) (hP : b.Paced)
    (hq : b.store.queue.Quiet time time) : time ≤ now := by
  have hB := hP.reachable.booked
  rcases h with h | h
  · obtain ⟨w, hw, hle⟩ := (keeper_advances hB hP.reachable.ids).1 h
    exact ((hq _ w hw).1 ((hB.shape.isOpen _ w hw).2 rfl)).trans hle
  · obtain ⟨w, hold, hle⟩ := (keeper_collects hP).1 h
    exact ((hq _ w hold.1).2 hold.2.1).trans hle

/-- **The keeper wakes in time.** Take a pass whose window jobs have found nothing to do, whatever
others have done to the contract between its questions. From then on, whatever anybody does, whenever a
window job would have something to send the window jobs are due. -/
theorem wakes_in_time (hf : Follows client chain) {es : List BlockEvent}
    (hstart : Blocks.Along es (chain d.world))
    (hpass : pass formatRate toFixed client config d = (d', .ok none)) {lines : List Line}
    (hlog : d'.log = d.log ++ lines) (hquiet : FoundNothing lines) (hb : (chain d'.world).Later b)
    (n : ℕ) (hwork : WindowWork config.pageLimit (n / 1000) b.store) : d'.window.due n = true := by
  obtain ⟨s, time, d₁, findings, d₂, hclock, hchecks, hwindow, hsweep⟩ := pass_ok hpass
  obtain ⟨-, -, hlog₁, u, state, hlook, hon, -⟩ := runChecks_ok hf hchecks
  obtain ⟨hsame, more, hlog', hmore, hlast⟩ := sweep_rest hf hsweep
  obtain ⟨o, ho, hname⟩ := hquiet.ran
  rw [mem_outcomes] at ho
  rcases windowUpkeep_ok hwindow with ⟨-, rfl⟩ | ⟨-, t, advanced, v, collected, ha, hc, rfl⟩
  · -- then the pass has logged no window job
    have hlines : lines = findings.map .finding ++ more.map .outcome := by
      refine (List.append_right_inj d.log).1 ?_
      rw [← hlog, hlog', hlog₁, List.append_assoc]
    rw [hlines] at ho
    rcases List.mem_append.1 ho with ho | ho
    · obtain ⟨_, -, hne⟩ := List.mem_map.1 ho
      cases hne
    · obtain ⟨_, hmem, he⟩ := List.mem_map.1 ho
      obtain rfl := Line.outcome.inj he
      rcases hmore _ hmem with h | h <;> exact absurd (h.symm.trans hname) (by decide)
  · have hlines : lines = findings.map .finding ++ [.outcome advanced] ++ [.outcome collected] ++
        more.map .outcome := by
      refine (List.append_right_inj d.log).1 ?_
      rw [← hlog, hlog', hlog₁]
      simp only [List.append_assoc]
    have hmem : ∀ o, o = advanced ∨ o = collected → o ∈ outcomes lines := by
      rintro o (rfl | rfl) <;> simp [mem_outcomes, hlines]
    have hna := hquiet.nothing advanced (hmem _ (.inl rfl)) (.inl (windowTask_name advanceWindow_of ha))
    have hnc := hquiet.nothing collected (hmem _ (.inr rfl))
      (.inr (windowTask_name (fun page now => collectMatured_of page now _) hc))
    obtain ⟨x, t₁, hx, hxt, ha⟩ := windowTask_nothing hf advanceWindow_of ha hna
    obtain ⟨y, t₂, hy, hyv, hc⟩ :=
      windowTask_nothing hf (fun page now => collectMatured_of page now _) hc hnc
    -- the moments of the two looks, and what comes after them
    have hP : (chain x).Paced :=
      ((((hf.clock.ok hclock).trans (hf.looked.ok hlook)).trans hon).trans hx).paced hstart.paced
    have hxy : (chain x).Later (chain y) := hxt.trans hy
    have hyb : (chain y).Later b := (hyv.trans hlast).trans hb
    obtain ⟨soon, hsoon, hquiet'⟩ := soonest_quiet hP ha hxy hc
    have hP₂ := hxy.paced hP
    have hle := hwork.le (hyb.paced hP₂) (hyb.quiet hP₂ (Nat.le_refl soon) hquiet')
    rw [hsame, hsoon]
    unfold Schedule.mark Schedule.due
    simp only [decide_eq_true_eq]
    omega

set_option maxRecDepth 10000 in
/-- The next window closes five days later, and the keeper wakes on that second. -/
theorem wakes_in_time_closing : ∃ (d' : Desk Blocks) (b : Blocks) (n : ℕ),
    FoundNothing d'.log ∧ d'.world.Later b ∧ WindowWork 25 (n / 1000) b.store ∧
      d'.window.due n = true ∧ d'.window.due (n - 1) = false := by
  have hrun : (devClosing.foldlM Blocks.step devBlocks).bind (fun b =>
      ((devPass b).1.world.step (.next (devStart + 10 * 86400))).map fun b' =>
        ((devPass b).2.toOption, decide (FoundNothing (devPass b).1.log),
          (b'.store.windows.lookup b'.store.openWindow).map (·.closesAt),
          (devPass b).1.window.due ((devStart + 10 * 86400) * 1000 - 1))) =
      some (some none, true, some (devStart + 10 * 86400), false) := by decide +kernel
  obtain ⟨b₀, hb₀, hs⟩ := Option.bind_eq_some_iff.1 hrun
  obtain ⟨b, hb, hs⟩ := Option.map_eq_some_iff.1 hs
  simp only [Prod.mk.injEq, decide_eq_true_eq, toOption_eq_some] at hs
  obtain ⟨hok, hnothing, hclose, hbefore⟩ := hs
  obtain ⟨w, hw, hclose⟩ := Option.map_eq_some_iff.1 hclose
  have halong := Blocks.along_replay devBlocks_fresh hb₀
  have hpass : devPass b₀ = (_, .ok none) := Prod.ext rfl hok
  have hP : b.Paced := ((pass_onward devOutside_follows hpass).trans (.of_step hb)).paced halong.paced
  have hwork : WindowWork 25 ((devStart + 10 * 86400) * 1000 / 1000) b.store :=
    .inl ((keeper_advances hP.reachable.booked hP.reachable.ids).2 ⟨w, hw, by omega⟩)
  exact ⟨_, b, _, hnothing, .of_step hb, hwork, wakes_in_time devOutside_follows halong hpass
    (List.nil_append _).symm hnothing (.of_step hb) _ hwork, hbefore⟩

end Keeper

end LstCore
