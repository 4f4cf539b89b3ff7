import LstCore.Lib.Spacing
import LstCore.Queue.Shape

/-!
# The times of the windows

A window is opened when the one before it closes, so the opening times of the windows are
also the closing times.

* `Queue.Timed`: each window closes its length after it was opened, or later, and what it
  undelegated matures one unbonding period after it closed.
* `Queue.Timed.step`: every move keeps it.
* `Queue.Timed.unripe_length_le`: how many windows in flight have not matured at any one time.
-/

namespace LstCore

open Lib

namespace Queue

variable {q q' : Queue} {period secs now id : ℕ} {w w' : UnbondWindow} {m : Move}
  {params : ProtocolParams}

/-- When a window was opened, which is when the one before it closed. -/
def openedAt (q : Queue) (id : ℕ) : ℕ := (q.windows.lookup id).elim 0 (·.openedAt)

/-- **The times of a queue** at `now`, with windows of `secs` and an unbonding `period`. -/
structure Timed (period secs now : ℕ) (q : Queue) : Prop where
  opened : ∀ id w, q.windows.lookup id = some w → w.openedAt ≤ now
  closes : ∀ id w, q.windows.lookup id = some w → w.closesAt = satAdd64 w.openedAt secs
  successive : ∀ id < q.openWindow, satAdd64 (q.openedAt id) secs ≤ q.openedAt (id + 1)
  matures : ∀ id w, q.windows.lookup id = some w → w.state = .unbonding →
    w.maturesAt = satAdd64 (q.openedAt (id + 1)) period

theorem openedAt_eq (hw : q.windows.lookup id = some w) : q.openedAt id = w.openedAt := by
  unfold openedAt; rw [hw]; rfl

theorem openedAt_put (hw : q.windows.lookup id = some w) (hq : q'.windows = q.windows.insert id w')
    (ho : w'.openedAt = w.openedAt) (i : ℕ) : q'.openedAt i = q.openedAt i := by
  unfold openedAt
  rw [hq, Keymap.lookup_put]
  split
  · rename_i hi
    rw [hi, hw]
    exact ho
  · rfl

theorem openedAt_advance {active : List ℕ} (hw : q.windows.lookup q.openWindow = some w)
    (ho : w'.openedAt = w.openedAt) (i : ℕ) : (q.advance now secs w' active).openedAt i =
      if i = q.nextWindowId then now else q.openedAt i := by
  unfold openedAt
  rw [lookup_advance]
  split
  · rfl
  · split
    · rename_i hi
      rw [hi, hw]
      exact ho
    · rfl

namespace Timed

theorem mono {now' : ℕ} (h : q.Timed period secs now) (hle : now ≤ now') : q.Timed period secs now' :=
  ⟨fun id w hw => (h.opened id w hw).trans hle, h.closes, h.successive, h.matures⟩

theorem openedAt_le (h : q.Timed period secs now) (id : ℕ) : q.openedAt id ≤ now := by
  rcases hw : q.windows.lookup id with _ | w
  · simp [openedAt, hw]
  · rw [openedAt_eq hw]; exact h.opened id w hw

/-- Replacing a window by one with the same times. -/
theorem put (h : q.Timed period secs now) (hw : q.windows.lookup id = some w)
    (hq : q'.windows = q.windows.insert id w') (hopen : q'.openWindow = q.openWindow)
    (ho : w'.openedAt = w.openedAt) (hc : w'.closesAt = w.closesAt)
    (hm : w'.state = .unbonding → w.state = .unbonding ∧ w'.maturesAt = w.maturesAt) :
    q'.Timed period secs now := by
  have hat := openedAt_put hw hq ho
  have hlook : ∀ i v, q'.windows.lookup i = some v → ∃ u, q.windows.lookup i = some u ∧
      v.openedAt = u.openedAt ∧ v.closesAt = u.closesAt ∧
      (v.state = .unbonding → u.state = .unbonding ∧ v.maturesAt = u.maturesAt) := by
    intro i v hv
    rw [hq] at hv
    rcases Keymap.put_cases hv with ⟨rfl, rfl⟩ | ⟨-, hv⟩
    · exact ⟨w, hw, ho, hc, hm⟩
    · exact ⟨v, hv, rfl, rfl, fun hs => ⟨hs, rfl⟩⟩
  refine ⟨fun i v hv => ?_, fun i v hv => ?_, fun i hi => ?_, fun i v hv hs => ?_⟩
  · obtain ⟨u, hu, he, -⟩ := hlook i v hv
    exact he ▸ h.opened i u hu
  · obtain ⟨u, hu, he, he', -⟩ := hlook i v hv
    rw [he, he']
    exact h.closes i u hu
  · rw [hat, hat]
    exact h.successive i (hopen ▸ hi)
  · obtain ⟨u, hu, -, -, hs'⟩ := hlook i v hv
    obtain ⟨hun, hmat⟩ := hs' hs
    rw [hat, hmat]
    exact h.matures i u hu hun

/-- Closing the open window at `now` and opening its successor. -/
theorem advance {active : List ℕ} (h : q.Timed period secs now) (hS : q.Shape)
    (hw : q.windows.lookup q.openWindow = some w) (hdue : w.closesAt ≤ now)
    (ho : w'.openedAt = w.openedAt) (hc : w'.closesAt = w.closesAt)
    (hm : w'.state = .unbonding → w'.maturesAt = satAdd64 now period) :
    (q.advance now secs w' active).Timed period secs now := by
  have hnext := hS.next
  have hat : ∀ i, (q.advance now secs w' active).openedAt i =
      if i = q.nextWindowId then now else q.openedAt i := openedAt_advance hw ho
  refine ⟨fun i v hv => ?_, fun i v hv => ?_, fun i hi => ?_, fun i v hv hs => ?_⟩
  · rcases advance_cases hv with ⟨-, rfl⟩ | ⟨-, -, rfl⟩ | ⟨-, -, hv⟩
    · exact Nat.le_refl _
    · exact ho ▸ h.opened _ w hw
    · exact h.opened i v hv
  · rcases advance_cases hv with ⟨-, rfl⟩ | ⟨-, -, rfl⟩ | ⟨-, -, hv⟩
    · rfl
    · rw [hc, ho]
      exact h.closes _ w hw
    · exact h.closes i v hv
  · have hlt : i < q.nextWindowId := hi
    rw [hat, hat, if_neg (by omega)]
    by_cases hi' : i = q.openWindow
    · -- the window that closes is due, and its successor opens now
      subst hi'
      rw [if_pos hnext.symm, openedAt_eq hw, ← h.closes _ w hw]
      exact hdue
    · rw [if_neg (by omega)]
      exact h.successive i (by omega)
  · rw [hat]
    rcases advance_cases hv with ⟨-, rfl⟩ | ⟨-, rfl, rfl⟩ | ⟨-, hi, hv⟩
    · simp [Windows.open] at hs
    · -- the window that closes matures one period after its successor was opened
      rw [if_pos hnext.symm]
      exact hm hs
    · have hlt := hS.lt_next hv
      rw [if_neg (by omega)]
      exact h.matures i v hv hs

/-- **Every move keeps the times.** -/
theorem step (h : q.Timed params.unbondingPeriodSecs params.unbondWindowSecs now) (hS : q.Shape)
    (hs : Step q m q') (hm : m.Timed now params) :
    q'.Timed params.unbondingPeriodSecs params.unbondWindowSecs now := by
  cases hs with
  | joinNew hw hopen | joinOld hw hopen =>
    refine h.put hw rfl rfl rfl rfl fun hun => ?_
    simp [UnbondWindow.joined, hopen] at hun
  | closeEmpty hw hopen hdue hz =>
    obtain ⟨rfl, -, rfl⟩ := hm
    refine h.advance hS hw hdue rfl rfl fun hun => ?_
    simp [UnbondWindow.emptied] at hun
  | close hw hopen hdue hz =>
    obtain ⟨rfl, rfl, rfl⟩ := hm
    exact h.advance hS hw hdue rfl rfl fun _ => rfl
  | mature hw hs hr =>
    refine h.put hw rfl rfl rfl rfl fun hun => ?_
    simp [UnbondWindow.returned] at hun
  | pay hw hs hc hu hp hsc =>
    rename_i u id p sc w c
    refine h.put hw (by rfl) (by rfl) UnbondWindow.openedAt_paying
      UnbondWindow.closesAt_paying fun hun => ?_
    -- a window that is paid from has matured
    rw [UnbondWindow.state_paying, hs] at hun
    split at hun <;> simp at hun

/-- A move opens no window, or it closes the open one, which is due, and opens the next. -/
theorem opens (h : q.Timed params.unbondingPeriodSecs params.unbondWindowSecs now)
    (hs : Step q m q') (hm : m.Timed now params) :
    ((∀ t maturesAt s used, m ≠ .close t maturesAt s used) ∧
      q'.openedAt q'.openWindow = q.openedAt q.openWindow) ∨
    (satAdd64 (q.openedAt q.openWindow) params.unbondWindowSecs ≤ now ∧
      q'.openedAt q'.openWindow = now) := by
  have hnext : ∀ {v v' : UnbondWindow} {secs : ℕ} {active : List ℕ},
      q.windows.lookup q.openWindow = some v → v'.openedAt = v.openedAt →
      (q.advance now secs v' active).openedAt (q.advance now secs v' active).openWindow = now :=
    fun hv ho => by rw [openedAt_advance hv ho]; exact if_pos rfl
  cases hs with
  | joinNew hw hopen | joinOld hw hopen =>
    exact .inl ⟨by simp, openedAt_put hw rfl (by rfl) _⟩
  | closeEmpty hw hopen hdue hz =>
    obtain ⟨rfl, -⟩ := hm
    refine .inr ⟨?_, hnext hw rfl⟩
    rw [openedAt_eq hw, ← h.closes _ _ hw]
    exact hdue
  | close hw hopen hdue hz =>
    obtain ⟨rfl, -⟩ := hm
    refine .inr ⟨?_, hnext hw rfl⟩
    rw [openedAt_eq hw, ← h.closes _ _ hw]
    exact hdue
  | mature hw hs hr => exact .inl ⟨by simp, openedAt_put hw rfl (by rfl) _⟩
  | pay hw hs hc hu hp hsc =>
    exact .inl ⟨by simp, openedAt_put hw rfl UnbondWindow.openedAt_paying _⟩

/-- **A run of moves at `now`** keeps the times. Where it closes a window, the one open before
was due, and the one open after was opened now. -/
theorem run {hist : List Move}
    (h : q.Timed params.unbondingPeriodSecs params.unbondWindowSecs now) (hS : q.Shape)
    (hr : Run Step q hist q') (hm : ∀ m ∈ hist, m.Timed now params) :
    q'.Shape ∧ q'.Timed params.unbondingPeriodSecs params.unbondWindowSecs now ∧
      (q'.openedAt q'.openWindow = q.openedAt q.openWindow ∨
        satAdd64 (q.openedAt q.openWindow) params.unbondWindowSecs ≤ now ∧
          q'.openedAt q'.openWindow = now) ∧
      ∀ t maturesAt s used, .close t maturesAt s used ∈ hist →
        satAdd64 (q.openedAt q.openWindow) params.unbondWindowSecs ≤ now ∧
          q'.openedAt q'.openWindow = now := by
  induction hr with
  | nil => exact ⟨hS, h, .inl rfl, by simp⟩
  | @cons hist mid q' m hr hs ih =>
    obtain ⟨hS', h', hor, hcl⟩ := ih fun m hmem => hm m (List.mem_cons_of_mem _ hmem)
    have hmove := h'.opens hs (hm _ List.mem_cons_self)
    -- the window open in between was opened no earlier than the first one
    have hlate : satAdd64 (mid.openedAt mid.openWindow) params.unbondWindowSecs ≤ now →
        satAdd64 (q.openedAt q.openWindow) params.unbondWindowSecs ≤ now := by
      rcases hor with he | ⟨hle, -⟩
      · rw [he]; exact id
      · exact fun _ => hle
    refine ⟨hS'.step hs, h'.step hS' hs (hm _ List.mem_cons_self), ?_, ?_⟩
    · rcases hmove with ⟨-, he⟩ | ⟨hle, he⟩
      · rw [he]; exact hor
      · exact .inr ⟨hlate hle, he⟩
    · intro t maturesAt s used hmem
      rcases hmove with ⟨hne, he⟩ | ⟨hle, he⟩
      · rw [he]
        rcases List.mem_cons.1 hmem with rfl | hmem
        · exact absurd rfl (hne _ _ _ _)
        · exact hcl _ _ _ _ hmem
      · exact ⟨hlate hle, he⟩

/-- Before the end of time, a window is opened at least one window length after any earlier one. -/
theorem openedAt_add_le (h : q.Timed period secs now) (hnow : now < u64Max) {i j : ℕ} (hij : i < j)
    (hj : j ≤ q.openWindow) : q.openedAt i + secs ≤ q.openedAt j := by
  -- each window is opened its length after the one before: induction on the later one
  induction j with
  | zero => omega
  | succ j ih =>
    have hstep : q.openedAt j + secs ≤ q.openedAt (j + 1) := by
      have hs := h.successive j (by omega)
      have hle := h.openedAt_le (j + 1)
      unfold satAdd64 at hs
      omega
    by_cases hi : i = j
    · exact hi ▸ hstep
    · have := ih (by omega) (by omega)
      omega

end Timed

/-! ## How many windows have not matured -/

/-- The windows in flight that have not matured, in the order in which they closed. -/
def unripe (now : ℕ) (q : Queue) : List ℕ :=
  q.activeWindows.filter fun id => (q.windows.lookup id).elim false fun w =>
    w.state = .unbonding ∧ now < w.maturesAt

theorem mem_unripe : id ∈ q.unripe now ↔ id ∈ q.activeWindows ∧
    ∃ w, q.windows.lookup id = some w ∧ w.state = .unbonding ∧ now < w.maturesAt := by
  unfold unripe
  rw [List.mem_filter]
  refine and_congr_right fun _ => ?_
  rcases q.windows.lookup id with _ | w <;> simp

theorem sum_map_ite (p : ℕ → Bool) (l : List ℕ) :
    (l.map fun id => if p id then 1 else 0).sum = (l.filter p).length := by
  induction l with
  | nil => rfl
  | cons a l ih =>
    rw [List.map_cons, List.sum_cons, ih]
    by_cases hp : p a = true
    · rw [List.filter_cons_of_pos hp, List.length_cons, if_pos hp, Nat.add_comm]
    · rw [List.filter_cons_of_neg hp, if_neg hp, Nat.zero_add]

theorem total_unripe (hS : q.Shape) :
    q.windows.total (fun _ w => if w.state = .unbonding ∧ now < w.maturesAt then 1 else 0) =
      (q.unripe now).length := by
  have hnd : q.activeWindows.Nodup := hS.sorted.imp Nat.ne_of_lt
  rw [Keymap.total_eq_sum hnd fun id w hw hne => (hS.active id).2 ⟨w, hw, .inl ?_⟩, unripe,
    ← sum_map_ite]
  · congr 1
    refine List.map_congr_left fun id _ => ?_
    rcases q.windows.lookup id with _ | w <;> simp
  · by_contra hs
    exact hne (if_neg fun h => hs h.1)

/-- **At most one period's worth of closings has not matured**, rounded up. -/
theorem Timed.unripe_length_le (h : q.Timed period secs now) (hS : q.Shape) (hnow : now < u64Max)
    (hsecs : 0 < secs) : (q.unripe now).length ≤ (period + secs - 1) / secs := by
  have hspaced : Spaced secs ((q.unripe now).map fun id => q.openedAt (id + 1)) := by
    unfold Spaced
    rw [List.pairwise_map]
    refine (hS.sorted.sublist List.filter_sublist).imp_of_mem fun {a b} ha hb hab => ?_
    have hlt := hS.lt_next_of_active (mem_unripe.1 hb).1
    exact h.openedAt_add_le hnow (by omega) (by omega)
  have hlen := hspaced.length_le (u := period) hsecs ?_
  · rwa [List.length_map] at hlen
  · -- each of them closed no later than now, and has not matured now
    intro a ha b hb
    obtain ⟨i, hi, rfl⟩ := List.mem_map.1 ha
    obtain ⟨j, -, rfl⟩ := List.mem_map.1 hb
    obtain ⟨-, w, hw, hs, hlt⟩ := mem_unripe.1 hi
    have hmat := h.matures i w hw hs
    have hle := h.openedAt_le (j + 1)
    unfold satAdd64 at hmat
    omega

end Queue

end LstCore
