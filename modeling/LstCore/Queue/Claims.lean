import LstCore.Queue.Shape

/-!
# The claims against the windows

* `Queue.Claims`: the claims against a window add up to what it owes and to the shares it
  burned, those that are marked claimed add up to what it has paid, and an account's
  index lists each of its claims once.
* `Queue.Claims.step`: every move keeps it.
* `Queue.Claims.paid_add_due_le`: what a window has paid and what is still due on it are
  together at most what came back.
-/

namespace LstCore

open Lib

/-- **The claim ledger.** -/
structure Queue.Claims (q : Queue) : Prop where
  keyed : ∀ u id c, q.claims.lookup (u, id) = some c → c.windowId = id
  window : ∀ u id c, q.claims.lookup (u, id) = some c → ∃ w, q.windows.lookup id = some w
  unclaimed : ∀ u id c w, q.claims.lookup (u, id) = some c → q.windows.lookup id = some w →
    w.state = .open ∨ w.state = .unbonding → c.claimed = false
  owed : ∀ id w, q.windows.lookup id = some w → q.claimTotal id (·.scrtOwed.val) = w.scrtOwed.val
  burned : ∀ id w, q.windows.lookup id = some w →
    q.claimTotal id (·.sharesBurned.val) = w.sharesBurned.val
  paid : ∀ id w, q.windows.lookup id = some w → q.paidOn id w = w.scrtClaimed.val
  index : ∀ u id, (q.claimIndex u).count id = if (q.claims.lookup (u, id)).isSome then 1 else 0

namespace Queue

variable {q q' : Queue} {u : Addr} {id i : ℕ} {w w' : UnbondWindow} {c c₀ : ClaimRecord}
  {f : ClaimRecord → ℕ}

theorem worth_congr (ho : w'.scrtOwed = w.scrtOwed) (hp : w'.payable = w.payable) :
    worth w' c = worth w c := by
  unfold worth; rw [ho, hp]

/-! ## Totals over the claims -/

theorem claimTotal_congr (hq : q'.claims = q.claims) : q'.claimTotal id f = q.claimTotal id f := by
  unfold claimTotal; rw [hq]

theorem claimTotal_other (hq : q'.claims = q.claims.insert (u, i) c) (hi : i ≠ id) :
    q'.claimTotal id f = q.claimTotal id f := by
  have h := Keymap.total_insert q.claims (fun k c => if k.2 = id then f c else 0) (u, i) c
  unfold claimTotal
  rw [hq]
  rcases hl : q.claims.lookup (u, i) with _ | d <;> simp [hl, hi] at h <;> omega

/-- Writing a claim moves the totals against its window by the new one minus the old. -/
theorem claimTotal_put (hq : q'.claims = q.claims.insert (u, id) c) :
    q'.claimTotal id f + (q.claims.lookup (u, id)).elim 0 f = q.claimTotal id f + f c := by
  have h := Keymap.total_insert q.claims (fun k c => if k.2 = id then f c else 0) (u, id) c
  unfold claimTotal
  rw [hq]
  rcases hl : q.claims.lookup (u, id) with _ | d <;> simpa [hl] using h

theorem claimTotal_eq_zero (h : ∀ u c, q.claims.lookup (u, id) = some c → f c = 0) :
    q.claimTotal id f = 0 := by
  apply Keymap.total_eq_zero
  rintro ⟨u, i⟩ c hl
  split
  · rename_i hi
    simp only at hi
    exact h u c (hi ▸ hl)
  · rfl

theorem le_claimTotal (hl : q.claims.lookup (u, id) = some c) : f c ≤ q.claimTotal id f := by
  have h := Keymap.le_total (f := fun k c => if k.2 = id then f c else 0) hl
  rw [if_pos rfl] at h
  exact h

/-- Nothing is paid on a window none of whose claims is marked. -/
theorem paidOn_eq_zero (h : ∀ u c, q.claims.lookup (u, id) = some c → c.claimed = false) :
    q.paidOn id w = 0 :=
  claimTotal_eq_zero fun u c hl => by simp [h u c hl]

/-! ## The ledger is kept -/

theorem Claims.lookup_of_none (h : q.Claims) (hw : q.windows.lookup id = none) :
    q.claims.lookup (u, id) = none := by
  rcases hl : q.claims.lookup (u, id) with _ | c
  · rfl
  · obtain ⟨w, hw'⟩ := h.window _ _ _ hl
    simp [hw] at hw'

/-- A window that does not exist has no claims. -/
theorem Claims.claimTotal_of_none (h : q.Claims) (hn : q.windows.lookup id = none)
    (f : ClaimRecord → ℕ) : q.claimTotal id f = 0 :=
  claimTotal_eq_zero fun u c hl => by simp [h.lookup_of_none hn] at hl

/-- A move that leaves the claims alone keeps the ledger when it leaves the amounts of the
windows alone, moves only windows none of whose claims is marked, and opens empty ones. -/
theorem Claims.of_windows (h : q.Claims) (hc : q'.claims = q.claims)
    (hi : q'.claimIndex = q.claimIndex)
    (hkeep : ∀ id w, q.windows.lookup id = some w → ∃ w', q'.windows.lookup id = some w')
    (hw : ∀ id w', q'.windows.lookup id = some w' →
      (∃ w, q.windows.lookup id = some w ∧ w'.scrtOwed = w.scrtOwed ∧
        w'.sharesBurned = w.sharesBurned ∧ w'.scrtClaimed = w.scrtClaimed ∧
        (w' = w ∨ w.state = .open ∨ w.state = .unbonding)) ∨
      (q.windows.lookup id = none ∧ w'.scrtOwed = 0 ∧ w'.sharesBurned = 0 ∧ w'.scrtClaimed = 0)) :
    q'.Claims where
  keyed := by rw [hc]; exact h.keyed
  window u id c hl := by
    rw [hc] at hl
    obtain ⟨w, hw⟩ := h.window u id c hl
    exact hkeep id w hw
  unclaimed u id c w' hl hw' hs := by
    rw [hc] at hl
    rcases hw id w' hw' with ⟨w, hl', -, -, -, rfl | hs'⟩ | ⟨hn, -⟩
    · exact h.unclaimed u id c w' hl hl' hs
    · exact h.unclaimed u id c w hl hl' hs'
    · simp [h.lookup_of_none hn] at hl
  owed id w' hw' := by
    rw [claimTotal_congr hc]
    rcases hw id w' hw' with ⟨w, hl, ho, -⟩ | ⟨hn, ho, -⟩
    · rw [ho]; exact h.owed id w hl
    · rw [ho]
      exact h.claimTotal_of_none hn _
  burned id w' hw' := by
    rw [claimTotal_congr hc]
    rcases hw id w' hw' with ⟨w, hl, -, hb, -⟩ | ⟨hn, -, hb, -⟩
    · rw [hb]; exact h.burned id w hl
    · rw [hb]
      exact h.claimTotal_of_none hn _
  paid id w' hw' := by
    unfold paidOn
    rw [claimTotal_congr hc]
    rcases hw id w' hw' with ⟨w, hl, -, -, hp, rfl | hs⟩ | ⟨hn, -, -, hp⟩
    · exact h.paid id w' hl
    · -- its payable amount may have moved, but nothing is paid on it yet
      have hun : ∀ u c, q.claims.lookup (u, id) = some c → c.claimed = false :=
        fun u c hl' => h.unclaimed u id c w hl' hl hs
      rw [hp, ← h.paid id w hl]
      exact (paidOn_eq_zero hun).trans (paidOn_eq_zero hun).symm
    · rw [hp]
      exact h.claimTotal_of_none hn _
  index := by rw [hc, hi]; exact h.index

/-- Closing the open window and opening its successor moves no claim. -/
theorem Claims.advance (h : q.Claims) (hS : q.Shape) (hw : q.windows.lookup q.openWindow = some w)
    (hopen : w.state = .open) (ho : w'.scrtOwed = w.scrtOwed)
    (hb : w'.sharesBurned = w.sharesBurned) (hp : w'.scrtClaimed = w.scrtClaimed)
    (now windowSecs : ℕ) (active : List ℕ) : (q.advance now windowSecs w' active).Claims := by
  refine h.of_windows rfl rfl ?_ ?_
  · intro i v hv
    obtain ⟨v', hv'⟩ := Keymap.exists_put q.openWindow w' hv
    exact Keymap.exists_put _ _ hv'
  · intro i v hv
    rcases advance_cases hv with ⟨rfl, rfl⟩ | ⟨-, rfl, rfl⟩ | ⟨-, -, hv⟩
    · exact .inr ⟨hS.lookup_next, rfl, rfl, rfl⟩
    · exact .inl ⟨w, hw, ho, hb, hp, .inr (.inl hopen)⟩
    · exact .inl ⟨v, hv, rfl, rfl, rfl, .inl rfl⟩

/-- A sum over the claims still agrees with a figure of the windows when one claim and its
window are written and both move by the same amount. -/
theorem claimTotal_written {f : ClaimRecord → ℕ} {g : UnbondWindow → ℕ}
    (hw : q.windows.lookup id = some w) (hcl : q'.claims = q.claims.insert (u, id) c)
    (hwin : q'.windows = q.windows.insert id w')
    (hkeep : ∀ i v, q.windows.lookup i = some v → q.claimTotal i f = g v)
    (hg : g w' + (q.claims.lookup (u, id)).elim 0 f = g w + f c) :
    ∀ i v, q'.windows.lookup i = some v → q'.claimTotal i f = g v := by
  intro i v hv
  rw [hwin] at hv
  rcases Keymap.put_cases hv with ⟨rfl, rfl⟩ | ⟨hi, hv⟩
  · have hput := claimTotal_put (f := f) hcl
    have hold := hkeep _ _ hw
    omega
  · rw [claimTotal_other hcl (Ne.symm hi)]
    exact hkeep i v hv

theorem Claims.mem_index (h : q.Claims) (hc : q.claims.lookup (u, id) = some c) :
    id ∈ q.claimIndex u := by
  have hcount := h.index u id
  rw [hc, Option.isSome_some, if_pos rfl] at hcount
  exact List.count_pos_iff.1 (by omega)

theorem Claims.index_nodup (h : q.Claims) (u : Addr) : (q.claimIndex u).Nodup := by
  rw [List.nodup_iff_count_le_one]
  intro id
  rw [h.index]
  split <;> omega

/-- The index still lists each claim once when one of them is written again. -/
theorem Claims.index_rewritten (h : q.Claims) {c₀ : ClaimRecord}
    (hc : q.claims.lookup (u, id) = some c₀) (c : ClaimRecord) : ∀ v i, (q.claimIndex v).count i =
      if ((q.claims.insert (u, id) c).lookup (v, i)).isSome then 1 else 0 := by
  intro v i
  have hix := h.index v i
  rw [Keymap.lookup_put]
  by_cases he : (v, i) = (u, id)
  · rw [if_pos he]
    rw [he, hc] at hix
    simpa using hix
  · rw [if_neg he]
    exact hix

/-- Writing one claim together with its window keeps the ledger when the amounts move
together. -/
theorem Claims.put (h : q.Claims) (hw : q.windows.lookup id = some w)
    (hcl : q'.claims = q.claims.insert (u, id) c) (hwin : q'.windows = q.windows.insert id w')
    (hid : c.windowId = id)
    (hun : w'.state = .open ∨ w'.state = .unbonding →
      (w.state = .open ∨ w.state = .unbonding) ∧ c.claimed = false)
    (ho : w'.scrtOwed.val + (q.claims.lookup (u, id)).elim 0 (·.scrtOwed.val) =
      w.scrtOwed.val + c.scrtOwed.val)
    (hb : w'.sharesBurned.val + (q.claims.lookup (u, id)).elim 0 (·.sharesBurned.val) =
      w.sharesBurned.val + c.sharesBurned.val)
    (hp : q'.paidOn id w' = w'.scrtClaimed.val)
    (hindex : ∀ v i, (q'.claimIndex v).count i =
      if (q'.claims.lookup (v, i)).isSome then 1 else 0) : q'.Claims := by
  refine ⟨?_, ?_, ?_, ?_, ?_, ?_, hindex⟩
  · intro v i d hl
    rw [hcl] at hl
    rcases Keymap.put_cases hl with ⟨he, rfl⟩ | ⟨-, hl⟩
    · exact hid.trans (Prod.ext_iff.1 he).2.symm
    · exact h.keyed v i d hl
  · intro v i d hl
    rw [hcl] at hl
    rw [hwin]
    rcases Keymap.put_cases hl with ⟨he, -⟩ | ⟨-, hl⟩
    · cases he
      exact Keymap.exists_put _ _ hw
    · obtain ⟨v', hv'⟩ := h.window v i d hl
      exact Keymap.exists_put _ _ hv'
  · -- a claim against the window written is the new one, or was there while it was unmarked
    intro v i d v' hl hw' hs
    rw [hwin] at hw'
    rw [hcl] at hl
    rcases Keymap.put_cases hw' with ⟨rfl, rfl⟩ | ⟨hi, hw'⟩
    · obtain ⟨hs', hc⟩ := hun hs
      rcases Keymap.put_cases hl with ⟨-, rfl⟩ | ⟨-, hl⟩
      · exact hc
      · exact h.unclaimed v i d w hl hw hs'
    · rw [Keymap.lookup_put, if_neg (by simp [hi])] at hl
      exact h.unclaimed v i d v' hl hw' hs
  · exact claimTotal_written hw hcl hwin h.owed ho
  · exact claimTotal_written hw hcl hwin h.burned hb
  · intro i v' hw'
    rw [hwin] at hw'
    rcases Keymap.put_cases hw' with ⟨rfl, rfl⟩ | ⟨hi, hw'⟩
    · exact hp
    · unfold paidOn
      rw [claimTotal_other hcl (Ne.symm hi)]
      exact h.paid i v' hw'

/-- No claim against the open window is marked, so a request that joins it pays nothing. -/
theorem Claims.paidOn_join (h : q.Claims) (hw : q.windows.lookup q.openWindow = some w)
    (hopen : w.state = .open) (hcl : q'.claims = q.claims.insert (u, q.openWindow) c)
    (hun : c.claimed = false) : q'.paidOn q.openWindow w' = w.scrtClaimed.val := by
  rw [← h.paid _ _ hw,
    paidOn_eq_zero fun v d hl => h.unclaimed v _ d w hl hw (.inl hopen), paidOn_eq_zero]
  intro v d hl
  rw [hcl] at hl
  rcases Keymap.put_cases hl with ⟨-, rfl⟩ | ⟨-, hl⟩
  · exact hun
  · exact h.unclaimed v _ d w hl hw (.inl hopen)

/-- Paying a claim adds what it is worth to what its window has paid. -/
theorem Claims.paidOn_pay (h : q.Claims) (hw : q.windows.lookup id = some w)
    (hc : q.claims.lookup (u, id) = some c) (hu : c.claimed = false) {sc : Uint128}
    (hcl : q'.claims = q.claims.insert (u, id) { c with claimed := true }) :
    q'.paidOn id (w.paying sc) = w.scrtClaimed.val + worth w c := by
  have hworth : ∀ d, worth (w.paying sc) d = worth w d := fun d =>
    worth_congr UnbondWindow.scrtOwed_paying UnbondWindow.payable_paying
  have ht := claimTotal_put (f := fun d => if d.claimed then worth w d else 0) hcl
  have hwc : worth w { c with claimed := true } = worth w c := rfl
  have hpaid := h.paid _ _ hw
  unfold paidOn at hpaid ⊢
  simp only [hworth]
  simp only [hc, Option.elim_some, hu, Bool.false_eq_true, if_false, if_true, hwc] at ht
  omega

/-- **Every move keeps the claim ledger.** -/
theorem Claims.step {m : Move} (hS : q.Shape) (h : q.Claims) (hs : Step q m q') : q'.Claims := by
  cases hs with
  | joinNew hw hopen hc hsb hso =>
    rename_i u shares owed sb so w
    refine h.put hw rfl rfl rfl (fun _ => ⟨.inl hopen, rfl⟩) ?_ ?_ ?_ ?_
    · simpa [hc, UnbondWindow.joined] using hso
    · simpa [hc, UnbondWindow.joined] using hsb
    · show _ = w.scrtClaimed.val
      exact h.paidOn_join hw hopen rfl rfl
    · -- the new claim is pushed onto the index of its account
      intro v i
      have hix := h.index v i
      simp only [Keymap.lookup_put, Function.update_apply]
      by_cases hv : v = u
      · subst hv
        by_cases hi : i = q.openWindow
        · subst hi
          rw [hc] at hix
          simpa using hix
        · simp [hi, Ne.symm hi, hix]
      · simp [hv, hix]
  | joinOld hw hopen hc hsb hso hcsb hcso =>
    rename_i u shares owed sb so csb cso w c
    have hun := h.unclaimed _ _ _ _ hc hw (.inl hopen)
    refine h.put hw rfl rfl ?_ (fun _ => ⟨.inl hopen, hun⟩) ?_ ?_ ?_ ?_
    · show c.windowId = _
      exact h.keyed _ _ _ hc
    · simp only [hc, UnbondWindow.joined, Option.elim_some]; omega
    · simp only [hc, UnbondWindow.joined, Option.elim_some]; omega
    · show _ = w.scrtClaimed.val
      exact h.paidOn_join hw hopen rfl hun
    · -- the account is in the index of this window already
      exact h.index_rewritten hc _
  | closeEmpty hw hopen => exact h.advance hS hw hopen (by rfl) (by rfl) (by rfl) _ _ _
  | close hw hopen => exact h.advance hS hw hopen (by rfl) (by rfl) (by rfl) _ _ _
  | mature hw hs hr =>
    rename_i id r w
    refine h.of_windows rfl rfl ?_ ?_
    · intro i v hv
      exact Keymap.exists_put _ _ hv
    · -- what comes back changes what its window can pay, which nobody has been paid from
      intro i v hv
      rcases Keymap.put_cases hv with ⟨rfl, rfl⟩ | ⟨-, hv⟩
      · exact .inl ⟨w, hw, rfl, rfl, rfl, .inr (.inr hs)⟩
      · exact .inl ⟨v, hv, rfl, rfl, rfl, .inl rfl⟩
  | pay hw hs hc hu hp hsc =>
    rename_i u id p sc w c
    refine h.put hw rfl rfl ?_ ?_ ?_ ?_ ?_ ?_
    · show c.windowId = _
      exact h.keyed _ _ _ hc
    · -- a window that pays is never open or in flight
      intro hs'
      rw [UnbondWindow.state_paying, hs] at hs'
      split at hs' <;> simp at hs'
    · rw [UnbondWindow.scrtOwed_paying, hc]; rfl
    · rw [UnbondWindow.sharesBurned_paying, hc]; rfl
    · rw [UnbondWindow.scrtClaimed_paying, hsc, hp]
      exact h.paidOn_pay hw hc hu rfl
    · exact h.index_rewritten hc _

/-- **Every run keeps the shape and the claim ledger.** -/
theorem Claims.run {hist : List Move} (hS : q.Shape) (hC : q.Claims) (hr : Run Step q hist q') :
    q'.Shape ∧ q'.Claims :=
  hr.inv (P := fun q => q.Shape ∧ q.Claims) ⟨hS, hC⟩ fun _ _ _ h hs =>
    ⟨h.1.step hs, h.2.step h.1 hs⟩

/-! ## What a window can pay -/

/-- What the claims against a window are worth, as shares of what came back: a claim against
another window takes none of it. -/
theorem claimTotal_worth (q : Queue) (id : ℕ) (w : UnbondWindow) :
    q.claimTotal id (worth w) = (q.claims.entries.map fun e =>
      share (if e.1.2 = id then e.2.scrtOwed.val else 0) w.payable.val w.scrtOwed.val).sum := by
  unfold claimTotal Keymap.total
  congr 1
  apply List.map_congr_left
  intro e _
  by_cases hi : e.1.2 = id <;> simp [hi, worth]

/-- The claims against a window are together worth at most what came back. -/
theorem Claims.sum_worth_le (h : q.Claims) (hw : q.windows.lookup id = some w) :
    q.claimTotal id (worth w) ≤ w.payable.val := by
  have ho := h.owed id w hw
  rw [claimTotal_worth]
  exact sum_share_le _ _ (le_of_eq ho)

theorem paidOn_add_dueOn (q : Queue) (id : ℕ) (w : UnbondWindow) :
    q.paidOn id w + q.dueOn id w = q.claimTotal id (worth w) := by
  unfold paidOn dueOn claimTotal
  rw [← Keymap.total_add]
  apply Keymap.total_congr
  rintro ⟨v, i⟩ d -
  by_cases hi : i = id <;> by_cases hd : d.claimed <;> simp [hi, hd]

/-- **What a window has paid and what is still due on it are at most what came back.** -/
theorem Claims.paid_add_due_le (h : q.Claims) (hw : q.windows.lookup id = some w) :
    w.scrtClaimed.val + q.dueOn id w ≤ w.payable.val := by
  have hp := h.paid id w hw
  have := h.sum_worth_le hw
  have := paidOn_add_dueOn q id w
  omega

/-- An unpaid claim fits in what its window still has. -/
theorem Claims.worth_le_outstanding (h : q.Claims) (hw : q.windows.lookup id = some w)
    (hc : q.claims.lookup (u, id) = some c) (hu : c.claimed = false) :
    w.scrtClaimed.val + worth w c ≤ w.payable.val := by
  have hd := le_claimTotal (f := fun d => if d.claimed then 0 else worth w d) hc
  have := h.paid_add_due_le hw
  unfold dueOn at this
  simp [hu] at hd
  omega

end Queue

end LstCore
