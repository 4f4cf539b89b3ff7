import LstCore.Queue.Model

/-!
# The shape of the queue

* `Queue.Shape`: the windows are exactly the ids handed out so far, the newest one is
  the open one, what a window records fits its state, and the active list holds the
  windows that are unbonding or matured, oldest first.
* `Queue.Shape.step`: every move keeps it.
-/

namespace LstCore

open Lib

/-- Unbonding, or matured and not yet drained. -/
def UnbondWindow.Active (w : UnbondWindow) : Prop := w.state = .unbonding ∨ w.state = .matured

/-- What a window records in each state. -/
def UnbondWindow.OK (w : UnbondWindow) : Prop :=
  match w.state with
  | .open => w.scrtRealised = none ∧ w.scrtClaimed = 0 ∧ w.validatorsUsed = []
  | .unbonding => w.scrtRealised = none ∧ w.scrtClaimed = 0 ∧ w.scrtOwed ≠ 0
  | .matured => w.scrtOwed ≠ 0 ∧ ∃ r, w.scrtRealised = some r ∧ r ≤ w.scrtOwed
  | .settled => ∃ r, w.scrtRealised = some r ∧ r ≤ w.scrtOwed ∧ r ≤ w.scrtClaimed

/-- **A well-formed queue.** -/
structure Queue.Shape (q : Queue) : Prop where
  next : q.nextWindowId = q.openWindow + 1
  mem : ∀ id, (∃ w, q.windows.lookup id = some w) ↔ id < q.nextWindowId
  keyed : ∀ id w, q.windows.lookup id = some w → w.id = id
  isOpen : ∀ id w, q.windows.lookup id = some w → (w.state = .open ↔ id = q.openWindow)
  ok : ∀ id w, q.windows.lookup id = some w → w.OK
  active : ∀ id, id ∈ q.activeWindows ↔ ∃ w, q.windows.lookup id = some w ∧ w.Active
  sorted : q.activeWindows.Pairwise (· < ·)

namespace UnbondWindow

variable {w : UnbondWindow} {r c sb so : Uint128}

theorem not_active_of_open (h : w.state = .open) : ¬ w.Active := by simp [Active, h]

@[simp] theorem id_paying : (w.paying c).id = w.id := by unfold paying; simp only; split <;> rfl

@[simp] theorem scrtOwed_paying : (w.paying c).scrtOwed = w.scrtOwed := by
  unfold paying; simp only; split <;> rfl

@[simp] theorem sharesBurned_paying : (w.paying c).sharesBurned = w.sharesBurned := by
  unfold paying; simp only; split <;> rfl

@[simp] theorem scrtClaimed_paying : (w.paying c).scrtClaimed = c := by
  unfold paying; simp only; split <;> rfl

@[simp] theorem payable_paying : (w.paying c).payable = w.payable := by
  unfold paying payable; simp only; split <;> rfl

@[simp] theorem realised_paying : (w.paying c).scrtRealised = w.scrtRealised := by
  unfold paying; simp only; split <;> rfl

@[simp] theorem maturesAt_paying : (w.paying c).maturesAt = w.maturesAt := by
  unfold paying; simp only; split <;> rfl

@[simp] theorem openedAt_paying : (w.paying c).openedAt = w.openedAt := by
  unfold paying; simp only; split <;> rfl

@[simp] theorem closesAt_paying : (w.paying c).closesAt = w.closesAt := by
  unfold paying; simp only; split <;> rfl

@[simp] theorem validatorsUsed_paying : (w.paying c).validatorsUsed = w.validatorsUsed := by
  unfold paying; simp only; split <;> rfl

/-- A payment settles the window exactly when it has paid all it can. -/
theorem state_paying : (w.paying c).state = if w.payable ≤ c then .settled else w.state := by
  unfold paying Windows.isDrained payable
  simp only [decide_eq_true_eq]
  split <;> rfl

theorem OK.realised_none (h : w.OK) (hs : w.state = .open ∨ w.state = .unbonding) :
    w.scrtRealised = none ∧ w.scrtClaimed = 0 := by
  unfold OK at h
  rcases hs with hs | hs <;> rw [hs] at h <;> exact ⟨h.1, h.2.1⟩

theorem OK.realised_some (h : w.OK) (hs : w.state = .matured ∨ w.state = .settled) :
    w.scrtRealised = some w.payable ∧ w.payable ≤ w.scrtOwed := by
  unfold OK at h
  rcases hs with hs | hs <;> rw [hs] at h
  · obtain ⟨-, r, hr, hle⟩ := h
    simpa [payable, hr] using hle
  · obtain ⟨r, hr, hle, -⟩ := h
    simpa [payable, hr] using hle

theorem OK.owed_ne_zero (h : w.OK) (ha : w.Active) : w.scrtOwed ≠ 0 := by
  unfold OK at h
  rcases ha with hs | hs <;> rw [hs] at h
  · exact h.2.2
  · exact h.1

theorem OK.joined (h : w.OK) (hs : w.state = .open) : (w.joined sb so).OK := by
  unfold OK at h ⊢
  simp only [UnbondWindow.joined, hs] at h ⊢
  exact h

theorem emptied_ok (w : UnbondWindow) : w.emptied.OK :=
  ⟨0, rfl, Nat.zero_le _, Nat.zero_le _⟩

theorem OK.sent {m : ℕ} {used : List String} (h : w.OK) (hs : w.state = .open)
    (hz : w.scrtOwed ≠ 0) : (w.sent m used).OK := by
  obtain ⟨hr, hc⟩ := h.realised_none (.inl hs)
  exact ⟨hr, hc, hz⟩

theorem OK.returned (h : w.OK) (hs : w.state = .unbonding) (hr : r ≤ w.scrtOwed) :
    (w.returned r).OK :=
  ⟨h.owed_ne_zero (.inl hs), r, rfl, hr⟩

theorem OK.paying (h : w.OK) (hs : w.state = .matured) : (w.paying c).OK := by
  obtain ⟨hr, hle⟩ := h.realised_some (.inl hs)
  unfold OK
  rw [state_paying]
  by_cases hd : w.payable ≤ c
  · simp only [if_pos hd, realised_paying, scrtOwed_paying, scrtClaimed_paying]
    exact ⟨_, hr, hle, hd⟩
  · simp only [if_neg hd, hs, realised_paying, scrtOwed_paying]
    exact ⟨h.owed_ne_zero (.inr hs), _, hr, hle⟩

end UnbondWindow

namespace Queue

variable {q q' : Queue} {id : ℕ} {w w' : UnbondWindow}

theorem Shape.lt_next (h : q.Shape) (hw : q.windows.lookup id = some w) : id < q.nextWindowId :=
  (h.mem id).1 ⟨w, hw⟩

theorem Shape.lookup_next (h : q.Shape) : q.windows.lookup q.nextWindowId = none := by
  rcases hl : q.windows.lookup q.nextWindowId with _ | w
  · rfl
  · have := h.lt_next hl; omega

theorem Shape.exists_open (h : q.Shape) :
    ∃ w, q.windows.lookup q.openWindow = some w ∧ w.state = .open := by
  obtain ⟨w, hw⟩ := (h.mem q.openWindow).2 (by have := h.next; omega)
  exact ⟨w, hw, (h.isOpen _ _ hw).2 rfl⟩

theorem Shape.lt_next_of_active (h : q.Shape) (hid : id ∈ q.activeWindows) : id < q.openWindow := by
  obtain ⟨w, hw, ha⟩ := (h.active id).1 hid
  have hlt := h.lt_next hw
  have hne : id ≠ q.openWindow := fun he => by
    have hopen := (h.isOpen id w hw).2 he
    exact UnbondWindow.not_active_of_open hopen ha
  have := h.next
  omega

/-- Replacing a window keeps the shape when it stays open or stays closed and the active
list follows it. -/
theorem Shape.put (h : q.Shape) (hw : q.windows.lookup id = some w) (hok : w'.OK)
    (hid : w'.id = w.id) (ho : w'.state = .open ↔ w.state = .open) {active : List ℕ}
    (hact : ∀ i, i ∈ active ↔ if i = id then w'.Active else i ∈ q.activeWindows)
    (hsort : active.Pairwise (· < ·)) {claims : Keymap (Addr × ℕ) ClaimRecord}
    {claimIndex : Addr → List ℕ} :
    Shape { q with
      windows := q.windows.insert id w', activeWindows := active, claims, claimIndex } where
  next := h.next
  mem i := by
    rw [← h.mem i]
    by_cases hi : i = id
    · subst hi; simp [hw]
    · simp [hi]
  keyed i v hv := by
    rcases Keymap.put_cases hv with ⟨rfl, rfl⟩ | ⟨-, hv⟩
    · rw [hid, h.keyed _ _ hw]
    · exact h.keyed i v hv
  isOpen i v hv := by
    rcases Keymap.put_cases hv with ⟨rfl, rfl⟩ | ⟨-, hv⟩
    · rw [ho, h.isOpen _ _ hw]
    · exact h.isOpen i v hv
  ok i v hv := by
    rcases Keymap.put_cases hv with ⟨-, rfl⟩ | ⟨-, hv⟩
    · exact hok
    · exact h.ok i v hv
  active i := by
    rw [hact]
    by_cases hi : i = id
    · simp [Keymap.lookup_put, hi]
    · simp [hi, h.active i]
  sorted := hsort

/-- Replacing a window that stays active, or stays inactive, leaves the active list alone. -/
theorem Shape.put_same (h : q.Shape) (hw : q.windows.lookup id = some w) (hok : w'.OK)
    (hid : w'.id = w.id) (ho : w'.state = .open ↔ w.state = .open) (ha : w'.Active ↔ w.Active)
    {claims : Keymap (Addr × ℕ) ClaimRecord} {claimIndex : Addr → List ℕ} :
    Shape { q with windows := q.windows.insert id w', claims, claimIndex } := by
  apply h.put hw hok hid ho _ h.sorted
  intro i
  by_cases hi : i = id
  · subst hi; simp [h.active i, hw, ha]
  · simp [hi]

/-- Closing the open window and opening its successor keeps the shape. -/
theorem Shape.advance (h : q.Shape) (hw : q.windows.lookup q.openWindow = some w)
    (hok : w'.OK) (hid : w'.id = w.id) (hc : w'.state ≠ .open) {active : List ℕ}
    (hact : ∀ i, i ∈ active ↔ if i = q.openWindow then w'.Active else i ∈ q.activeWindows)
    (hsort : active.Pairwise (· < ·)) (now windowSecs : ℕ) :
    (q.advance now windowSecs w' active).Shape := by
  have hnext := h.next
  have hne : q.openWindow ≠ q.nextWindowId := by omega
  constructor
  case next => rfl
  case mem =>
    -- the successor takes the next id
    intro i
    rw [lookup_advance]
    have hm := h.mem i
    show _ ↔ i < q.nextWindowId + 1
    split
    · simp; omega
    · split
      · simp; omega
      · rw [hm]; omega
  case keyed =>
    intro i v hv
    rcases advance_cases hv with ⟨rfl, rfl⟩ | ⟨-, rfl, rfl⟩ | ⟨-, -, hv⟩
    · rfl
    · rw [hid, h.keyed _ _ hw]
    · exact h.keyed i v hv
  case isOpen =>
    -- the successor is the one open window, since the old one is closed
    intro i v hv
    show v.state = .open ↔ i = q.nextWindowId
    rcases advance_cases hv with ⟨rfl, rfl⟩ | ⟨hi, -, rfl⟩ | ⟨hi, hi', hv⟩
    · simp [Windows.open]
    · simp [hc, hi]
    · have := h.isOpen i v hv
      simp [this, hi, hi']
  case ok =>
    intro i v hv
    rcases advance_cases hv with ⟨-, rfl⟩ | ⟨-, -, rfl⟩ | ⟨-, -, hv⟩
    · simp [UnbondWindow.OK, Windows.open]
    · exact hok
    · exact h.ok i v hv
  case active =>
    intro i
    rw [lookup_advance]
    show i ∈ active ↔ _
    rw [hact]
    by_cases hi : i = q.nextWindowId
    · subst hi
      have hna : q.nextWindowId ∉ q.activeWindows := fun hm => by
        have := h.lt_next_of_active hm; omega
      simp [Ne.symm hne, hna, UnbondWindow.Active, Windows.open]
    · by_cases hi' : i = q.openWindow
      · simp [hi', hne]
      · simp [hi, hi', h.active i]
  case sorted => exact hsort

/-- **Every move keeps the shape.** -/
theorem Shape.step {m : Move} (h : q.Shape) (hs : Step q m q') : q'.Shape := by
  cases hs with
  | joinNew hw hopen =>
    -- a request moves the amounts of the open window and no state
    refine h.put_same hw ((h.ok _ _ hw).joined hopen) ?_ ?_ ?_ <;> rfl
  | joinOld hw hopen =>
    refine h.put_same hw ((h.ok _ _ hw).joined hopen) ?_ ?_ ?_ <;> rfl
  | closeEmpty hw hopen hdue hz =>
    refine h.advance hw (UnbondWindow.emptied_ok _) rfl (by simp [UnbondWindow.emptied]) ?_ h.sorted _ _
    · -- an empty window settles at once and never becomes active
      intro i
      split
      · rename_i hi
        have hna : i ∉ q.activeWindows := fun hm => by have := h.lt_next_of_active hm; omega
        simp [hna, UnbondWindow.Active, UnbondWindow.emptied]
      · exact Iff.rfl
  | close hw hopen hdue hz =>
    refine h.advance hw ((h.ok _ _ hw).sent hopen hz) rfl (by simp [UnbondWindow.sent]) ?_ ?_ _ _
    · intro i
      split
      · rename_i hi; simp [hi, UnbondWindow.Active, UnbondWindow.sent]
      · rename_i hi; simp [hi]
    · -- the window that closes has the largest id so far
      refine List.pairwise_append.2 ⟨h.sorted, List.pairwise_singleton _ _, ?_⟩
      intro a ha b hb
      rw [List.mem_singleton] at hb
      have := h.lt_next_of_active ha
      omega
  | mature hw hs hr =>
    -- a window that comes back stays on the active list
    refine h.put_same hw ((h.ok _ _ hw).returned hs hr) rfl ?_ ?_
    · simp [UnbondWindow.returned, hs]
    · simp [UnbondWindow.Active, UnbondWindow.returned, hs]
  | pay hw hs hc hu hp hsc =>
    rename_i id p sc w c
    refine h.put hw ((h.ok _ _ hw).paying hs) (by simp) ?_ ?_ ?_
    · rw [UnbondWindow.state_paying, hs]; split <;> simp
    · -- a window leaves the list exactly when this payment settles it
      intro i
      have ha : i = id → i ∈ q.activeWindows := fun hi => (h.active i).2 ⟨w, hi ▸ hw, .inr hs⟩
      unfold UnbondWindow.Active
      rw [UnbondWindow.state_paying, hs]
      by_cases hi : i = id
      · by_cases hd : w.payable ≤ sc <;> simp [hd, hi]
        exact hi ▸ ha hi
      · by_cases hd : w.payable ≤ sc <;> simp [hd, hi]
    · split
      · exact h.sorted.filter _
      · exact h.sorted

end Queue

end LstCore
