import LstCore.Proof.Queries

/-!
# Paging through the windows

A client that asks for windows page by page, each page after the last id it has received,
reads every window its filter lets through, once and in order (`window_pages_complete`).
-/

namespace LstCore

open Lib

variable {st : Storage} {state : Option WindowState} {limits : ℕ → Option ℕ}

/-- What a client reads that asks for at most `fuel` pages. The limit it gives may change from
page to page. -/
def pageWindows (state : Option WindowState) (limits : ℕ → Option ℕ) (st : Storage) (fuel : ℕ) :
    Option (List UnbondWindow) :=
  pageThrough (·.id) (fun k after => queryWindows state after (limits k) st) fuel 0 none

theorem length_listed_le : (st.listed state).length ≤ st.nextWindowId := by
  calc (st.listed state).length
      ≤ ((List.range st.nextWindowId).filterMap st.windows.lookup).length := List.length_filter_le _ _
    _ ≤ (List.range st.nextWindowId).length := List.length_filterMap_le _ _
    _ = st.nextWindowId := List.length_range

/-- A client that always asks for something has read the whole listing once it has asked for
more pages than there are windows. -/
theorem pageWindows_eq (h : Reachable st) (hlim : ∀ k, ∀ n ∈ limits k, 1 ≤ n) {fuel : ℕ}
    (hfuel : st.nextWindowId < fuel) : pageWindows state limits st fuel = some (st.listed state) := by
  have hB := h.booked
  refine pageThrough_eq hB.listed_sorted (fun k after hafter => ?_)
    (Nat.lt_of_le_of_lt length_listed_le hfuel) 0
  refine ⟨min ((limits k).getD defaultWindowPage) maxWindowPage, ?_, queryWindows_eq hB h.ids ?_ _⟩
  · refine Nat.lt_min.2 ⟨?_, by decide⟩
    rcases hk : limits k with _ | n
    · decide
    · exact hlim k n hk
  · -- the ids a client has received are ids of windows
    intro id hid
    obtain ⟨w, hw, rfl⟩ := List.mem_map.1 (hafter id hid)
    exact hB.shape.lt_next (hB.mem_listed.1 hw).1

/-- **Paging is complete.** Whatever the filter and the limits, of at least one each, the pages
come to an end, and together they are exactly the windows the filter lets through, each once,
in the order of their ids. -/
theorem window_pages_complete (h : Reachable st) (state : Option WindowState)
    (hlim : ∀ k, ∀ n ∈ limits k, 1 ≤ n) :
    ∃ out, (∀ fuel, st.nextWindowId < fuel → pageWindows state limits st fuel = some out) ∧
      out.Pairwise (fun v w => v.id < w.id) ∧
      ∀ w, w ∈ out ↔ (∃ id, st.windows.lookup id = some w) ∧ ∀ s ∈ state, w.state = s := by
  have hB := h.booked
  refine ⟨st.listed state, fun fuel hfuel => pageWindows_eq h hlim hfuel, hB.listed_sorted,
    fun w => ?_⟩
  rw [hB.mem_listed]
  refine and_congr ⟨fun hw => ⟨_, hw⟩, ?_⟩ ?_
  · rintro ⟨id, hw⟩
    rwa [hB.shape.keyed id w hw]
  · cases state with
    | none => simp [wanted]
    | some s => simp [wanted_some]

set_option maxRecDepth 10000 in
/-- Three windows, of which two are unbonding, read one by one. -/
theorem window_pages_complete_two : ∃ w, devTwoClosed.foldlM World.step devWorld = some w ∧
    ∃ out, (∀ fuel, w.store.nextWindowId < fuel →
        pageWindows (some .unbonding) (fun _ => some 1) w.store fuel = some out) ∧
      out.Pairwise (fun v v' => v.id < v'.id) ∧
      ∀ v, v ∈ out ↔ (∃ id, w.store.windows.lookup id = some v) ∧
        ∀ s ∈ some WindowState.unbonding, v.state = s := by
  have hrun : (devTwoClosed.foldlM World.step devWorld).isSome := by decide +kernel
  obtain ⟨w, hw⟩ := Option.isSome_iff_exists.1 hrun
  exact ⟨w, hw, window_pages_complete (World.replay_reachable devWorld_fresh hw) _ (by simp)⟩

end LstCore
