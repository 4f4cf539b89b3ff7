import LstCore.Proof.Returns

/-!
# What has arrived, and what is recorded

* `Funded`: the balance covers what the matured windows owe and, besides, what has arrived
  for the windows in flight. It stays while the windows marked take no more than what arrived
  for them (`Funded.turn`, `Funded.other`).
* `Turn.whole_iff`: the windows a transaction marks get all they owe exactly when the balance
  covers them.
* `Turn.faithful_iff`: they get exactly what arrived for them when each of them got in full or
  takes exactly what is left.
-/

namespace LstCore

open Lib

variable {w w' : World} {t : Tx} {e : Event} {b : Uint128} {id : ℕ} {rets : List (ℕ × Uint128)}
  {messages : List CosmosMsg}

/-! ## What has arrived -/

/-- The amount credited for a window. -/
def World.creditedFor (w : World) (id : ℕ) : ℕ := ((w.credited id).getD 0).val

/-- What has been credited for the windows still in flight. -/
def World.arrived (w : World) : ℕ :=
  w.store.windows.total fun id v => if v.state = .unbonding then w.creditedFor id else 0

/-- What has arrived is in the balance, on top of what the matured windows owe. -/
def Funded (w : World) : Prop :=
  w.store.totals.scrtOwedMatured.val + w.arrived ≤ w.balance.val

/-- **A transaction takes out of what has arrived** what arrived for the windows it marks. -/
theorem Turn.arrived (hT : Turn w t b rets messages w') (hB : Booked w.store) :
    w'.arrived + (rets.map fun ret => w.creditedFor ret.1).sum = w.arrived := by
  have hrest : w'.arrived = w.store.windows.total fun id v => if id ∈ rets.map (·.1) then 0
      else if v.state = .unbonding then w.creditedFor id else 0 := by
    -- window by window: one in flight keeps what arrived for it unless it is marked
    refine Keymap.total_eq_of_lookup fun id => ?_
    have hp := hT.passage id
    generalize hv : w.store.windows.lookup id = o at hp
    generalize hv' : w'.store.windows.lookup id = o' at hp
    cases hp with
    | same hn =>
      rcases o with _ | v
      · rfl
      · simp only [Option.elim_some, if_neg hn]
        split
        · rename_i hs
          rw [World.creditedFor, hT.credited hB hv (by simp [hs]), World.creditedFor]
        · rfl
    | opened hn h' => simp [h']
    | joined hn h h' => simp [h, h']
    | emptied hn h h' hz => simp [h, h']
    | sent hn hid h h' hz hu hsum hm =>
      -- the return of a window that has just closed has not been credited
      have hnone : w'.creditedFor id = 0 := by
        rw [World.creditedFor, World.credited, hT.returns, World.fileReturn, if_neg hu, hid,
          AList.lookup_insert]
        rfl
      simp [h, hnone]
    | returned hr h h' hle ho hm hre =>
      have hin : id ∈ rets.map (·.1) := List.mem_map_of_mem hr
      rcases h' with h' | h' <;> simp only [Option.elim_some, h', if_pos hin, reduceCtorEq, if_false]
    | paid hn h h' ho hm hre => rcases h' with h' | h' <;> simp [h, h']
  have htotal := Keymap.total_without (m := w.store.windows)
    (f := fun id v => if v.state = .unbonding then w.creditedFor id else 0) (hT.nodup hB)
  have hmarked : (rets.map (·.1)).map (fun id => (w.store.windows.lookup id).elim 0 fun v =>
      if v.state = .unbonding then w.creditedFor id else 0) =
      rets.map fun ret => w.creditedFor ret.1 := by
    rw [List.map_map]
    refine List.map_congr_left fun ret hret => ?_
    obtain ⟨v, v', hv, -, hs, -⟩ := hT.returned hB hret
    simp [hv, hs]
  rw [hmarked] at htotal
  rw [hrest]
  exact htotal

/-- **A transaction keeps what has arrived in the balance** when the windows it marks together
take no more than arrived for them. -/
theorem Funded.turn (h : Funded w) (hB : Booked w.store) (hT : Turn w t b rets messages w')
    (hle : (rets.map (·.2.val)).sum ≤ (rets.map fun ret => w.creditedFor ret.1).sum) : Funded w' := by
  have h1 := hT.arrived hB
  have h2 := hT.ledger
  unfold Funded at h ⊢
  omega

/-- The other events keep it: a credit brings in what it adds. -/
theorem Funded.other (h : Funded w) (hs : w.step e = some w') (hne : ∀ t, e ≠ .tx t) : Funded w' := by
  obtain ⟨hq, ht, -, hin⟩ := World.step_other hs hne
  have hwin : w'.store.windows = w.store.windows := congrArg Queue.windows hq
  unfold Funded at h ⊢
  rw [ht]
  cases hin with
  | plain hr hb _ =>
    -- nothing is credited, and nothing leaves the balance
    have hsame : w'.arrived = w.arrived := by
      unfold World.arrived World.creditedFor World.credited
      rw [hwin, hr]
    omega
  | credit he hr hn hle hb hr' =>
    rename_i id amount r
    -- only the window credited has more than before, by no more than came in
    have hat : w'.creditedFor id = amount.val := by
      simp [World.creditedFor, World.credited, hr']
    have hoff : ∀ i, i ≠ id → w'.creditedFor i = w.creditedFor i := by
      intro i hi
      simp only [World.creditedFor, World.credited, hr']
      rw [AList.lookup_insert_ne hi]
    have hgrow : w'.arrived ≤ w.arrived + amount.val := by
      unfold World.arrived
      rw [hwin]
      rcases hv : w.store.windows.lookup id with _ | v
      · refine (le_of_eq (Keymap.total_congr fun i v hi => ?_)).trans (Nat.le_add_right _ _)
        rw [hoff i fun he => by rw [he, hv] at hi; simp at hi]
      · have := Keymap.total_off (f := fun id v => if v.state = .unbonding then w'.creditedFor id else 0)
          (g := fun id v => if v.state = .unbonding then w.creditedFor id else 0) hv
          fun i v hi _ => by rw [hoff i hi]
        simp only [hat] at this
        split at this <;> omega
    omega

theorem World.Fresh.funded (hf : w.Fresh) : Funded w := by
  have hsol := hf.solvent
  have hz : w.arrived = 0 := Keymap.total_eq_zero fun id v hv => by simp [(hf.window hv).1]
  unfold Funded
  rw [hz]
  exact hsol.covered

/-- What arrived for different windows in flight is together in what has arrived. -/
theorem World.sum_credited_le {ids : List ℕ} (hnd : ids.Nodup)
    (hfl : ∀ id ∈ ids, ∃ v, w.store.windows.lookup id = some v ∧ v.state = .unbonding) :
    (ids.map w.creditedFor).sum ≤ w.arrived := by
  have := Keymap.sum_le_total (m := w.store.windows)
    (f := fun id v => if v.state = .unbonding then w.creditedFor id else 0) hnd
  rwa [List.map_congr_left (g := w.creditedFor) fun id hid => by
    obtain ⟨v, hv, hs⟩ := hfl id hid
    simp [hv, hs]] at this

/-! ## What is recorded -/

/-- Every window that came back records what is right for it. -/
def Recorded (right : ℕ → Uint128 → Option Uint128) (ws : Keymap ℕ UnbondWindow) : Prop :=
  ∀ id v, ws.lookup id = some v → v.Back → v.scrtOwed ≠ 0 → v.scrtRealised = right id v.scrtOwed

/-- **After a transaction the records are right** exactly when the marked windows got what is
right for them. -/
theorem Turn.recorded_iff (hT : Turn w t b rets messages w') (hB : Booked w.store)
    (right : ℕ → Uint128 → Option Uint128) (h : Recorded right w.store.windows) :
    Recorded right w'.store.windows ↔ ∀ ret ∈ rets, ∀ v,
      w.store.windows.lookup ret.1 = some v → right ret.1 v.scrtOwed = some ret.2 := by
  constructor
  · intro h' ret hret v hv
    obtain ⟨v₀, v', hv₀, hv', hs, hb, -, ho, hre⟩ := hT.returned hB hret
    rw [hv, Option.some.injEq] at hv₀
    subst hv₀
    have hz := (hB.shape.ok _ v hv).owed_ne_zero (.inl hs)
    rw [← ho, ← h' _ v' hv' hb (ho ▸ hz), hre]
  · intro hall id v' hv' hb hz
    have hp := hT.passage id
    rw [hv'] at hp
    generalize hv : w.store.windows.lookup id = o at hp
    cases hp with
    | same hn => exact h id v' hv hb hz
    | opened hn h' => exact absurd h' hb.not_open
    | joined hn ho h' => exact absurd h' hb.not_open
    | emptied hn ho h' hz' => exact absurd hz' hz
    | sent hn hid ho h' hz' hu hsum hm => rcases hb with hb | hb <;> simp [h'] at hb
    | returned hr ho h' hle howed hm hre => rw [hre, howed, hall _ hr _ hv]
    | paid hn ho h' howed hm hre =>
      rw [hre, howed]
      exact h id _ hv (.inl ho) (howed ▸ hz)

/-- The amounts the marked windows get are right exactly when they are what is poured. -/
theorem Turn.amounts_iff (hT : Turn w t b rets messages w') (g : ℕ → ℕ) :
    (∀ ret ∈ rets, ret.2.val = g ret.1) ↔
      pour (b.val - w.store.totals.scrtOwedMatured.val)
        ((w.marks t).map (owedIn w.store.windows)) = (w.marks t).map g := by
  have hT' := hT.taken.amounts
  rw [World.marks, ← hT', ← hT.taken.ids, List.map_map, List.map_inj_left]
  rfl

/-! ## Getting all that is owed -/

/-- Every window that came back with something in it got all it owes. -/
def World.Whole (w : World) : Prop :=
  ∀ id v, w.store.windows.lookup id = some v → v.state = .matured ∨ v.state = .settled →
    v.scrtOwed ≠ 0 → v.scrtRealised = some v.scrtOwed

/-- The balance covers what the matured windows have still to pay and the windows the
transaction marks owe. -/
def World.Covers (w : World) (t : Tx) : Prop :=
  w.store.totals.scrtOwedMatured.val + ((w.marks t).map (owedIn w.store.windows)).sum ≤
    w.balance.val + amountIn w.store.config.bondedDenom t.info.funds

instance : ∀ w t, Decidable (World.Covers w t) := fun _ _ => inferInstanceAs (Decidable (_ ≤ _))

/-- **The windows a transaction marks get all they owe exactly when it is covered.** -/
theorem Turn.whole_iff (hT : Turn w t b rets messages w') (hsol : Solvent w) (h : w.Whole) :
    w'.Whole ↔ w.Covers t := by
  have hcov := hsol.covered
  have hb := hT.funded
  have hiff : w'.Whole ↔ ∀ ret ∈ rets, ret.2.val = owedIn w.store.windows ret.1 := by
    refine (hT.recorded_iff hsol.booked (fun _ o => some o) h).trans
      (forall₂_congr fun ret hret => ?_)
    obtain ⟨v, v', hv, -⟩ := hT.returned hsol.booked hret
    rw [owedIn_eq hv]
    constructor
    · intro hall
      have := hall v hv
      rw [Option.some.injEq] at this
      rw [this]
    · intro he v' hv'
      rw [hv, Option.some.injEq] at hv'
      subst hv'
      rw [Option.some.injEq, Word.ext_iff, he]
  rw [hiff, hT.amounts_iff, pour_eq_self]
  unfold World.Covers
  omega

/-! ## Getting what arrived -/

/-- Every window that came back with something in it records what was credited for it. -/
def World.Faithful (w : World) : Prop :=
  ∀ id v, w.store.windows.lookup id = some v → v.state = .matured ∨ v.state = .settled →
    v.scrtOwed ≠ 0 → v.scrtRealised = w.credited id

/-- One after the other, each window the transaction marks came back in full, or with exactly
what is left of the balance once the matured windows and those before it have theirs. -/
def World.Separates (w : World) (t : Tx) : Prop :=
  Exact (w.balance.val + amountIn w.store.config.bondedDenom t.info.funds -
      w.store.totals.scrtOwedMatured.val)
    ((w.marks t).map (owedIn w.store.windows)) ((w.marks t).map w.creditedFor)

/-- Every window the transaction marks has been credited. -/
def World.Credited (w : World) (t : Tx) : Prop := ∀ id ∈ w.marks t, w.credited id ≠ none

instance : ∀ w t, Decidable (World.Separates w t) := fun _ _ => inferInstanceAs (Decidable (Exact _ _ _))

instance : ∀ w t, Decidable (World.Credited w t) := fun w t =>
  inferInstanceAs (Decidable (∀ id ∈ w.marks t, w.credited id ≠ none))

theorem World.marks_in_flight (hid : id ∈ w.marks t) :
    ∃ v, w.store.windows.lookup id = some v ∧ v.state = .unbonding ∧ v.maturesAt ≤ w.now := by
  unfold World.marks marksOf at hid
  split at hid
  · simp at hid
  · exact dueIn_iff.1 (List.mem_filter.1 (List.mem_of_mem_take hid)).2

/-- What was credited for a window in flight is at most what it owes. -/
theorem Filed.creditedFor_le (h : Filed w) {v : UnbondWindow}
    (hv : w.store.windows.lookup id = some v) (hs : v.state = .unbonding) :
    w.creditedFor id ≤ v.scrtOwed.val := by
  have hz := (h.solvent.booked.shape.ok _ v hv).owed_ne_zero (.inl hs)
  obtain ⟨r, hr, ha, -⟩ := h.closed id v hv (by simp [hs]) hz
  rcases hc : r.credited with _ | c
  · simp [World.creditedFor, World.credited, hr, hc]
  · have := h.within id r c hr hc
    simpa [World.creditedFor, World.credited, hr, hc, ← ha] using this

/-- What was credited for the windows marked is in the balance next to what is owed. -/
theorem Funded.marks (h : Funded w) (hB : Booked w.store) :
    w.store.totals.scrtOwedMatured.val + ((w.marks t).map w.creditedFor).sum ≤ w.balance.val := by
  have := World.sum_credited_le (World.marks_nodup (t := t) hB) fun id hid => by
    obtain ⟨v, hv, hs, -⟩ := World.marks_in_flight hid
    exact ⟨v, hv, hs⟩
  unfold Funded at h
  omega

/-- **The windows a transaction marks record what arrived for them exactly when it keeps them
apart.** -/
theorem Turn.faithful_iff (hT : Turn w t b rets messages w') (hF : Filed w) (hfund : Funded w)
    (h : w.Faithful) (hc : w.Credited t) : w'.Faithful ↔ w.Separates t := by
  have hB := hF.solvent.booked
  have hsum := hfund.marks (t := t) hB
  have hiff : w'.Faithful ↔ ∀ ret ∈ rets, ret.2.val = w.creditedFor ret.1 := by
    refine (hT.recorded_iff hB (fun id _ => w'.credited id)
      fun id v hv hb hz => ?_).trans (forall₂_congr fun ret hret => ?_)
    · show v.scrtRealised = w'.credited id
      rw [hT.credited hB hv hb.not_open]
      exact h id v hv hb hz
    · obtain ⟨v, v', hv, -, hs, -⟩ := hT.returned hB hret
      obtain ⟨c, hcr⟩ := Option.ne_none_iff_exists'.1
        (hc ret.1 (hT.ids ▸ List.mem_map_of_mem hret))
      rw [hT.credited hB hv (by simp [hs]), World.creditedFor, hcr, Option.getD_some,
        Option.some.injEq, ← Word.ext_iff]
      exact ⟨fun hall => (hall v hv).symm, fun he _ _ => he.symm⟩
  rw [hiff, hT.amounts_iff, World.Separates, ← hT.funded]
  refine pour_eq_iff _ _ _ ?_ (by have := hT.funded; omega)
  rw [List.forall₂_map_left_iff, List.forall₂_map_right_iff, List.forall₂_same]
  intro id hid
  obtain ⟨v, hv, hs, -⟩ := World.marks_in_flight hid
  rw [owedIn_eq hv]
  exact hF.creditedFor_le hv hs

/-- The windows marked together get what arrived for them, when each records it. -/
theorem Turn.sum_faithful (hT : Turn w t b rets messages w') (hB : Booked w.store)
    (h : w'.Faithful) : (rets.map (·.2.val)).sum ≤ (rets.map fun ret => w.creditedFor ret.1).sum := by
  refine le_of_eq (congrArg List.sum (List.map_congr_left fun ret hret => ?_))
  obtain ⟨v, v', hv, hv', hs, hb, -, ho, hre⟩ := hT.returned hB hret
  have hz := (hB.shape.ok _ v hv).owed_ne_zero (.inl hs)
  have := h _ v' hv' hb (ho ▸ hz)
  rw [hre, hT.credited hB hv (by simp [hs])] at this
  rw [World.creditedFor, ← this]
  rfl

/-! ## The other events -/

theorem World.Whole.other (h : w.Whole) (hs : w.step e = some w') (hne : ∀ t, e ≠ .tx t) : w'.Whole := by
  have hwin : w'.store.windows = w.store.windows := congrArg Queue.windows (World.step_other hs hne).1
  unfold World.Whole
  rw [hwin]
  exact h

/-- Nothing but the first credit of a return changes what was credited. -/
theorem World.credited_other {c : Uint128} (hs : w.step e = some w') (hne : ∀ t, e ≠ .tx t)
    (hc : w.credited id = some c) : w'.credited id = some c := by
  obtain ⟨-, -, -, hin⟩ := World.step_other hs hne
  cases hin with
  | plain hr => rw [World.credited, hr]; exact hc
  | credit he hr hn hle hb hr' =>
    rename_i i amount r
    have hi : id ≠ i := fun he => by
      subst he
      simp [World.credited, hr, hn] at hc
    rw [World.credited, hr', AList.lookup_insert_ne hi]
    exact hc

theorem World.Faithful.other (h : w.Faithful) (hB : Booked w.store) (hs : w.step e = some w')
    (hne : ∀ t, e ≠ .tx t) : w'.Faithful := by
  have hwin : w'.store.windows = w.store.windows := congrArg Queue.windows (World.step_other hs hne).1
  unfold World.Faithful
  rw [hwin]
  intro id v hv hb hz
  have hre := h id v hv hb hz
  rw [((hB.shape.ok id v hv).realised_some hb).1] at hre ⊢
  exact (World.credited_other hs hne hre.symm).symm

theorem World.Fresh.whole (hf : w.Fresh) : w.Whole := fun _ _ hv hb _ =>
  absurd (hf.window hv).1 (UnbondWindow.Back.not_open hb)

theorem World.Fresh.faithful (hf : w.Fresh) : w.Faithful := fun _ _ hv hb _ =>
  absurd (hf.window hv).1 (UnbondWindow.Back.not_open hb)

end LstCore
