import LstCore.Proof.Blocks
import LstCore.Proof.Queries
import LstCore.Spec.Browser
import LstCore.Spec.Keeper

/-!
# What the browser and the keeper find due

The browser reads one page of 50 windows and filters it; the keeper lets the contract filter
and reads the first 50 of what is left. The oldest windows fill the browser's page for good,
so it sees the windows with ids below 50 and no others (`browser_collects`), and the two agree
exactly as long as what is due is among them (`due_agrees_iff`).
-/

namespace LstCore

open Lib

variable {st : Storage} {b : Blocks} {es : List BlockEvent} {w : UnbondWindow} {now pageLimit : ℕ}
  {γ : Type} {toFixed : ℕ → String} {state : StateResponse} {config : γ} {rewards : Option ℕ}

/-! ## The open window -/

/-- The open window, when its time has come. -/
def OpenDue (st : Storage) (now : ℕ) (w : UnbondWindow) : Prop :=
  st.windows.lookup st.openWindow = some w ∧ w.closesAt ≤ now

theorem Booked.mem_open (hB : Booked st) :
    w ∈ st.listed (some .open) ↔ st.windows.lookup st.openWindow = some w := by
  rw [hB.mem_listed, wanted_some]
  constructor
  · rintro ⟨hw, hs⟩
    rwa [(hB.shape.isOpen _ w hw).1 hs] at hw
  · intro hw
    have hid : w.id = st.openWindow := hB.shape.keyed _ w hw
    exact ⟨hid.symm ▸ hw, (hB.shape.isOpen _ w hw).2 rfl⟩

theorem keeper_advances (hB : Booked st) (hfit : st.nextWindowId ≤ u64Max) :
    (Keeper.advanceWindow (Keeper.windows · st) now).sends = some .advanceWindow ↔
      ∃ w, OpenDue st now w := by
  obtain ⟨v, hv, -⟩ := hB.shape.exists_open
  have hv : st.windows.lookup st.openWindow = some v := hv
  have hhead : (Keeper.windows (some .open) st).head? = some v := by
    unfold Keeper.windows
    rw [queryWindows_first hB hfit]
    -- the open window is the only one on the page
    rcases hl : (st.listed (some .open)) with _ | ⟨a, rest⟩
    · exact absurd (hB.mem_open.2 hv) (by simp [hl])
    · have ha : a ∈ st.listed (some .open) := by simp [hl]
      rw [hB.mem_open, hv] at ha
      simp [maxWindowPage, ha]
  unfold Keeper.advanceWindow OpenDue
  rw [hhead]
  by_cases hdue : now < v.closesAt
  · simp [hdue, Keeper.Decision.sends, hv]
  · simp only [if_neg hdue, Keeper.Decision.sends, hv, true_iff]
    exact ⟨v, rfl, not_lt.1 hdue⟩

theorem browser_page (hB : Booked st) (hfit : st.nextWindowId ≤ u64Max) :
    w ∈ Browser.fetchWindows none st ↔ st.windows.lookup w.id = some w ∧ w.id < 50 := by
  unfold Browser.fetchWindows
  rw [queryWindows_first hB hfit]
  exact hB.mem_take_listed

theorem browser_advances (hB : Booked st) (hfit : st.nextWindowId ≤ u64Max) :
    Browser.isDue .advanceWindow (Browser.assess toFixed (some state) (some config)
        (Browser.fetchWindows none st) rewards now) = true ↔
      ∃ w, OpenDue st now w ∧ st.openWindow < 50 := by
  have hdue : Browser.isDue .advanceWindow (Browser.assess toFixed (some state) (some config)
        (Browser.fetchWindows none st) rewards now) = true ↔
      ∃ w, (Browser.fetchWindows none st).find? (fun w => w.state = .open) = some w ∧
        w.closesAt ≤ now := by
    rcases hf : (Browser.fetchWindows none st).find? fun w => w.state = .open with _ | w <;>
      simp [Browser.isDue, Browser.assess, hf]
  have hopen : ∀ w, st.windows.lookup w.id = some w → w.state = .open →
      w.id = st.openWindow := fun w hw hs => (hB.shape.isOpen _ w hw).1 hs
  rw [hdue]
  constructor
  · rintro ⟨w, hf, hle⟩
    have hs : w.state = .open := by simpa using List.find?_some hf
    obtain ⟨hw, hlt⟩ := (browser_page hB hfit).1 (List.mem_of_find?_eq_some hf)
    have hid := hopen w hw hs
    exact ⟨w, ⟨hid ▸ hw, hle⟩, hid ▸ hlt⟩
  · rintro ⟨w, ⟨hw, hle⟩, hlt⟩
    have hid : w.id = st.openWindow := hB.shape.keyed _ w hw
    have hs : w.state = .open := (hB.shape.isOpen _ w hw).2 rfl
    have hmem := (browser_page hB hfit).2 ⟨hid.symm ▸ hw, hid.symm ▸ hlt⟩
    -- the page has an open window, and there is only one
    obtain ⟨v, hf⟩ : ∃ v, (Browser.fetchWindows none st).find? (fun w => w.state = .open) = some v :=
      Option.isSome_iff_exists.1 (List.find?_isSome.2 ⟨w, hmem, decide_eq_true hs⟩)
    have hvs : v.state = .open := by simpa using List.find?_some hf
    obtain ⟨hv, -⟩ := (browser_page hB hfit).1 (List.mem_of_find?_eq_some hf)
    rw [hopen v hv hvs, hw, Option.some.injEq] at hv
    exact ⟨v, hf, hv ▸ hle⟩

/-! ## The windows in flight -/

theorem collectMatured_sends {windows : Option WindowState → List UnbondWindow} :
    (Keeper.collectMatured windows now pageLimit).sends = some (.collectMatured (some pageLimit)) ↔
      ∃ w ∈ windows (some .unbonding), w.maturesAt ≤ now := by
  unfold Keeper.collectMatured
  dsimp only
  split
  · rename_i hnil
    simp only [List.filter_eq_nil_iff, decide_eq_true_eq] at hnil
    simp only [Keeper.Decision.sends, reduceCtorEq, false_iff]
    exact fun ⟨w, hw, hle⟩ => hnil w hw hle
  · rename_i hne
    obtain ⟨w, hw⟩ := List.exists_mem_of_ne_nil _ hne
    rw [List.mem_filter, decide_eq_true_eq] at hw
    simp only [Keeper.Decision.sends, true_iff]
    exact ⟨w, hw⟩

/-- The oldest window that is unbonding. -/
def Oldest (st : Storage) (w : UnbondWindow) : Prop :=
  st.windows.lookup w.id = some w ∧ w.state = .unbonding ∧
    ∀ v, st.windows.lookup v.id = some v → v.state = .unbonding → w.id ≤ v.id

theorem Oldest.unique {v : UnbondWindow} (h : Oldest st w) (h' : Oldest st v) : v = w := by
  have hid : v.id = w.id := Nat.le_antisymm (h'.2.2 w h.1 h.2.1) (h.2.2 v h'.1 h'.2.1)
  have hw := h.1
  rw [← hid, h'.1, Option.some.injEq] at hw
  exact hw

/-- The windows in flight start with the oldest. -/
theorem Booked.oldest_head (hB : Booked st) {vs : List UnbondWindow}
    (hl : st.listed (some .unbonding) = w :: vs) : Oldest st w := by
  have hmem : ∀ v, v ∈ w :: vs ↔ st.windows.lookup v.id = some v ∧ v.state = .unbonding := by
    intro v
    rw [← hl, hB.mem_listed, wanted_some]
  have hsorted : (st.listed (some .unbonding)).Pairwise fun v w => v.id < w.id := hB.listed_sorted
  rw [hl] at hsorted
  obtain ⟨hw, hs⟩ := (hmem w).1 List.mem_cons_self
  refine ⟨hw, hs, fun v hv hvs => ?_⟩
  rcases List.mem_cons.1 ((hmem v).2 ⟨hv, hvs⟩) with rfl | hv
  · exact Nat.le_refl _
  · exact ((List.pairwise_cons.1 hsorted).1 v hv).le

/-- Where a window is in flight, the list of them starts with the oldest. -/
theorem Booked.exists_oldest (hB : Booked st) (hw : st.windows.lookup w.id = some w)
    (hs : w.state = .unbonding) :
    ∃ v vs, st.listed (some .unbonding) = v :: vs ∧ Oldest st v := by
  have hmem : w ∈ st.listed (some .unbonding) := hB.mem_listed.2 ⟨hw, wanted_some.2 hs⟩
  obtain ⟨v, vs, hl⟩ := List.exists_cons_of_ne_nil (List.ne_nil_of_mem hmem)
  exact ⟨v, vs, hl, hB.oldest_head hl⟩

/-- **Windows mature in the order in which they closed.** -/
theorem Blocks.Paced.matures_le (h : b.Paced) {v : UnbondWindow}
    (hw : b.store.windows.lookup w.id = some w) (hs : w.state = .unbonding)
    (hv : b.store.windows.lookup v.id = some v) (hvs : v.state = .unbonding) (hle : w.id ≤ v.id) :
    w.maturesAt ≤ v.maturesAt := by
  have hB := h.reachable.booked
  rcases Nat.eq_or_lt_of_le hle with heq | hlt
  · rw [heq, hv, Option.some.injEq] at hw
    rw [hw]
  · -- what closed later was closed no earlier
    have hnext : v.id < b.store.openWindow + 1 := hB.shape.next ▸ hB.shape.lt_next hv
    have hne : v.id ≠ b.store.openWindow := fun he => by
      rw [(hB.shape.isOpen _ v hv).2 he] at hvs
      cases hvs
    have hopened := h.timed.openedAt_add_le h.short (show w.id + 1 < v.id + 1 by omega)
      (show v.id + 1 ≤ b.store.openWindow by omega)
    rw [h.timed.matures _ w hw hs, h.timed.matures _ v hv hvs]
    unfold satAdd64
    omega

/-- The oldest window in flight has matured when any has. -/
theorem Blocks.Paced.oldest_le (h : b.Paced) (hw : b.store.windows.lookup w.id = some w)
    (hs : w.state = .unbonding) :
    ∃ v, Oldest b.store v ∧ v.id ≤ w.id ∧ v.maturesAt ≤ w.maturesAt := by
  obtain ⟨v, -, -, hold⟩ := h.reachable.booked.exists_oldest hw hs
  have hid := hold.2.2 w hw hs
  exact ⟨v, hold, hid, h.matures_le hold.1 hold.2.1 hw hs hid⟩

theorem keeper_collects (h : b.Paced) :
    (Keeper.collectMatured (Keeper.windows · b.store) now pageLimit).sends =
        some (.collectMatured (some pageLimit)) ↔ ∃ w, Oldest b.store w ∧ w.maturesAt ≤ now := by
  have hB := h.reachable.booked
  have hpage : Keeper.windows (some .unbonding) b.store =
      (b.store.listed (some .unbonding)).take 50 := queryWindows_first hB h.reachable.ids 50
  rw [collectMatured_sends, hpage]
  constructor
  · rintro ⟨v, hv, hle⟩
    obtain ⟨hlook, hvs⟩ := hB.mem_listed.1 (List.mem_of_mem_take hv)
    obtain ⟨w, hold, -, hmat⟩ := h.oldest_le hlook (wanted_some.1 hvs)
    exact ⟨w, hold, hmat.trans hle⟩
  · rintro ⟨w, hold, hle⟩
    -- the page starts with it
    obtain ⟨v, vs, hl, hold'⟩ := hB.exists_oldest hold.1 hold.2.1
    rw [← hold.unique hold'] at hle
    exact ⟨v, by simp [hl], hle⟩

theorem browser_collects (h : b.Paced) :
    Browser.isDue .collectMatured (Browser.assess toFixed (some state) (some config)
        (Browser.fetchWindows none b.store) rewards now) = true ↔
      ∃ w, Oldest b.store w ∧ w.maturesAt ≤ now ∧ w.id < 50 := by
  have hB := h.reachable.booked
  have hfit := h.reachable.ids
  have hdue : Browser.isDue .collectMatured (Browser.assess toFixed (some state) (some config)
        (Browser.fetchWindows none b.store) rewards now) = true ↔
      ∃ w ∈ Browser.fetchWindows none b.store, w.state = .unbonding ∧ w.maturesAt ≤ now := by
    simp [Browser.isDue, Browser.assess, List.length_pos_iff_exists_mem]
  rw [hdue]
  constructor
  · rintro ⟨v, hv, hvs, hle⟩
    obtain ⟨hlook, hlt⟩ := (browser_page hB hfit).1 hv
    obtain ⟨w, hold, hid, hmat⟩ := h.oldest_le hlook hvs
    exact ⟨w, hold, hmat.trans hle, hid.trans_lt hlt⟩
  · rintro ⟨w, hold, hle, hlt⟩
    exact ⟨w, (browser_page hB hfit).2 ⟨hold.1, hlt⟩, hold.2.1, hle⟩

/-! ## Agreement -/

/-- The page and the keeper, on the same storage at the same time, find the same tasks due. -/
def AgreeOnDue (toFixed : ℕ → String) (state : StateResponse) (config : γ) (rewards : Option ℕ)
    (pageLimit now : ℕ) (st : Storage) : Prop :=
  let items := Browser.assess toFixed (some state) (some config) (Browser.fetchWindows none st)
    rewards now
  (Browser.isDue .advanceWindow items = true ↔
      (Keeper.advanceWindow (Keeper.windows · st) now).sends = some .advanceWindow) ∧
    (Browser.isDue .collectMatured items = true ↔
      (Keeper.collectMatured (Keeper.windows · st) now pageLimit).sends =
        some (.collectMatured (some pageLimit)))

/-- **Where the browser and the keeper agree.** After any history, at any time, and whatever else
the page has read: exactly where neither the open window nor the oldest one in flight is due
with an id of 50 or more. -/
theorem due_agrees_iff (h : Blocks.Along es b) (toFixed : ℕ → String) (state : StateResponse)
    (config : γ) (rewards : Option ℕ) (pageLimit now : ℕ) :
    AgreeOnDue toFixed state config rewards pageLimit now b.store ↔
      (∀ w, OpenDue b.store now w → w.id < 50) ∧
        ∀ w, Oldest b.store w → w.maturesAt ≤ now → w.id < 50 := by
  have hP := h.paced
  have hB := hP.reachable.booked
  have hfit := hP.reachable.ids
  unfold AgreeOnDue
  dsimp only
  rw [browser_advances hB hfit, keeper_advances hB hfit, browser_collects hP, keeper_collects hP]
  refine and_congr ?_ ?_
  · have hid : ∀ w, OpenDue b.store now w → w.id = b.store.openWindow := fun w hw =>
      hB.shape.keyed _ w hw.1
    constructor
    · intro hiff w hw
      obtain ⟨-, -, hlt⟩ := hiff.2 ⟨w, hw⟩
      rwa [hid w hw]
    · exact fun hall => ⟨fun ⟨w, hw, _⟩ => ⟨w, hw⟩, fun ⟨w, hw⟩ => ⟨w, hw, hid w hw ▸ hall w hw⟩⟩
  · constructor
    · intro hiff w hw hle
      obtain ⟨v, hv, -, hlt⟩ := hiff.2 ⟨w, hw, hle⟩
      rwa [hw.unique hv] at hlt
    · exact fun hall => ⟨fun ⟨w, hw, hle, _⟩ => ⟨w, hw, hle⟩,
        fun ⟨w, hw, hle⟩ => ⟨w, hw, hle, hall w hw hle⟩⟩

/-- Windows that are closed as soon as they are due, with nothing in them. -/
def devQuiet (count : ℕ) : List BlockEvent :=
  (List.range count).flatMap fun i =>
    let now := devStart + (i + 1) * (5 * 86400)
    [.next now, devCall now devBonded "keeper" 0 .advanceWindow]

/-- An answer to the state query. -/
def devState : StateResponse := ⟨0, 0, 0, 0, 0, devStart, false, 0⟩

set_option maxRecDepth 10000 in
/-- After fifty windows the page no longer sees the one that is open. -/
theorem due_disagrees : ¬ ∀ (es : List BlockEvent) (b : Blocks) (pageLimit now : ℕ),
    Blocks.Along es b →
      AgreeOnDue (fun _ => "") devState () none pageLimit now b.store := by
  have hrun : ((devQuiet 50).foldlM Blocks.step devBlocks).map (fun b =>
      (b.store.openWindow, (b.store.windows.lookup 50).map (·.closesAt))) =
        some (50, some (devStart + 255 * 86400)) := by decide +kernel
  obtain ⟨b, hb, hopen⟩ := Option.map_eq_some_iff.1 hrun
  obtain ⟨h50, hclose⟩ := Prod.mk.injEq .. ▸ hopen
  obtain ⟨w, hw, hcl⟩ := Option.map_eq_some_iff.1 hclose
  intro hall
  have halong := Blocks.along_replay devBlocks_fresh hb
  have hR := halong.paced.reachable
  have hagree := (hall _ b 4 (devStart + 255 * 86400) halong).1
  rw [browser_advances hR.booked hR.ids, keeper_advances hR.booked hR.ids] at hagree
  obtain ⟨_, -, hlt⟩ := hagree.2 ⟨w, by rw [h50]; exact hw, hcl.le⟩
  omega

set_option maxRecDepth 10000 in
/-- With one window in flight and one open they agree at any time. -/
theorem due_agrees_two : ∃ b, Blocks.Along devClosing.reverse b ∧
    ∀ now, AgreeOnDue (fun _ => "") devState () none 4 now b.store := by
  have hrun : (devClosing.foldlM Blocks.step devBlocks).map (·.store.nextWindowId) = some 2 := by
    decide +kernel
  obtain ⟨b, hb, hnext⟩ := Option.map_eq_some_iff.1 hrun
  have halong := Blocks.along_replay devBlocks_fresh hb
  have hfew : ∀ w : UnbondWindow, ∀ id, b.store.windows.lookup id = some w → w.id < 50 := by
    intro w id hw
    have hS := halong.paced.reachable.booked.shape
    have hlt : id < b.store.nextWindowId := hS.lt_next hw
    rw [hS.keyed id w hw]
    omega
  exact ⟨b, halong, fun now => (due_agrees_iff halong _ _ _ _ _ _).2
    ⟨fun w hw => hfew w _ hw.1, fun w hw _ => hfew w _ hw.1⟩⟩

end LstCore
