import LstCore.Proof.Recorded

/-!
# Crediting in full

* `Full`: whatever has been credited was credited in full.
* `Full.covers`: windows that have been credited in full are covered.
* `World.InFull`: credits are in full, and no window is marked before its own; `Settling` holds
  along such a run.
* `Current`: besides, whatever is complete has been credited; every prompt step leaves the
  world so (`Current.promptStep`).
* `Current.inFull`, `blockStep_inFull`: the runs of a prompt chain meet `World.InFull`, and so do
  those of a chain that credits as a block ends, where windows are marked in a later block.
-/

namespace LstCore

open Lib

variable {w w' : World} {t : Tx} {e : Event} {b : Uint128} {id : ℕ} {rets : List (ℕ × Uint128)}
  {messages : List CosmosMsg}

/-! ## The credits of a block -/

theorem World.creditFull_step (hs : w.creditFull id = some w') :
    ∃ amount, w.step (.credit id amount) = some w' := by
  obtain ⟨r, amount, -, -, hc⟩ := World.creditFull_ok hs
  exact ⟨amount, hc⟩

/-- What the other events keep, the credits of a block keep. -/
theorem World.creditReady_inv {P : World → Prop} (h : P w)
    (hother : ∀ w e w', P w → w.step e = some w' → (∀ t, e ≠ .tx t) → P w')
    (hs : w.creditReady = some w') : P w' := by
  obtain ⟨hist, hr, -⟩ := World.creditReady_run hs
  refine hr.inv (P := P) h fun w id w' hP hc => ?_
  obtain ⟨amount, hstep⟩ := World.creditFull_step hc
  exact hother w _ w' hP hstep (by simp)

/-- What the other events keep, every step of a block but a transaction keeps. -/
theorem World.blockStep_inv {P : World → Prop} (h : P w)
    (hother : ∀ w e w', P w → w.step e = some w' → (∀ t, e ≠ .tx t) → P w')
    (hs : w.blockStep e = some w') (hne : ∀ t, e ≠ .tx t) : P w' := by
  by_cases htime : ∀ now, e ≠ .time now
  · exact hother w e w' h (World.blockStep_other hs htime).1 hne
  · push Not at htime
    obtain ⟨now, rfl⟩ := htime
    obtain ⟨v, hc, hv⟩ := World.blockStep_time hs
    exact hother v _ w' (World.creditReady_inv h hother hc) hv (by simp)

theorem World.blockStep_tx (hs : w.blockStep (.tx t) = some w') : w.tx t = some w' :=
  (World.blockStep_other hs (by simp)).1

/-- **What crediting a list of returns did** to one of them. -/
theorem World.creditAll_ok : ∀ {ids : List ℕ} {w w' : World}, ids.foldlM World.creditFull w = some w' →
    ∀ {id : ℕ} {r' : Return}, w'.returns.lookup id = some r' →
    (id ∈ ids → r'.credited ≠ none) ∧ ∃ r, w.returns.lookup id = some r ∧ r'.legs = r.legs ∧
      r'.completesAt = r.completesAt ∧ (r'.credited = r.credited ∨
        ∃ c, r'.credited = some c ∧ c.val = r.amount) := by
  intro ids
  induction ids with
  | nil =>
    intro w w' h id r' hr'
    simp only [List.foldlM_nil, Option.pure_def, Option.some.injEq] at h
    subst h
    exact ⟨by simp, r', hr', rfl, rfl, .inl rfl⟩
  | cons i ids ih =>
    intro w w' h id r' hr'
    rw [List.foldlM_cons, Option.bind_eq_bind, Option.bind_eq_some_iff] at h
    obtain ⟨mid, hmid, h⟩ := h
    obtain ⟨hin, r₁, hr₁, hl, hcm, hc⟩ := ih h hr'
    obtain ⟨r, amount, hr, ha, hcr⟩ := World.creditFull_ok hmid
    obtain ⟨r₂, c, hr₂, hnone, -, -, rfl⟩ := World.credit_ok hcr
    rw [hr, Option.some.injEq] at hr₂
    subst hr₂
    rcases Keymap.put_cases hr₁ with ⟨rfl, rfl⟩ | ⟨hi, hr₁⟩
    · have hsome : r'.credited ≠ none ∧ ∃ c, r'.credited = some c ∧ c.val = r.amount := by
        rcases hc with hc | ⟨c, hc, hv⟩
        · exact ⟨by simp [hc], amount, hc, ha⟩
        · exact ⟨by simp [hc], c, hc, hv⟩
      exact ⟨fun _ => hsome.1, r, hr, hl, hcm, .inr hsome.2⟩
    · exact ⟨fun hmem => hin ((List.mem_cons.1 hmem).resolve_left hi), r₁, hr₁, hl, hcm, hc⟩

/-! ## In full -/

/-- Whatever has been credited was credited in full. -/
def Full (w : World) : Prop :=
  ∀ id r c, w.returns.lookup id = some r → r.credited = some c → c.val = r.amount

theorem Full.turn (h : Full w) (hT : Turn w t b rets messages w') : Full w' := by
  intro id r c hr hc
  rw [hT.returns, World.fileReturn] at hr
  split at hr
  · exact h id r c hr hc
  · rcases Keymap.put_cases hr with ⟨-, rfl⟩ | ⟨-, hr⟩
    · simp at hc
    · exact h id r c hr hc

/-- Events that are neither transactions nor credits leave the returns alone. -/
theorem World.step_returns (hs : w.step e = some w') (hne : ∀ t, e ≠ .tx t)
    (hnc : ∀ id amount, e ≠ .credit id amount) : w'.returns = w.returns := by
  obtain ⟨-, -, -, hin⟩ := World.step_other hs hne
  cases hin with
  | plain hr => exact hr
  | credit he => exact absurd he (hnc _ _)

theorem Full.creditReady (h : Full w) (hs : w.creditReady = some w') : Full w' := by
  intro id r' c hr' hc
  obtain ⟨-, r, hr, hl, -, hcr⟩ := World.creditAll_ok hs hr'
  rw [Return.amount, hl]
  rcases hcr with he | ⟨c', hc', hv⟩
  · exact h id r c hr (he ▸ hc)
  · rw [hc, Option.some.injEq] at hc'
    rw [hc', hv]
    rfl

theorem Full.blockStep (h : Full w) (hs : w.blockStep e = some w') (hne : ∀ t, e ≠ .tx t) : Full w' := by
  by_cases htime : ∀ now, e ≠ .time now
  · obtain ⟨hstep, hnc⟩ := World.blockStep_other hs htime
    unfold Full
    rw [World.step_returns hstep hne hnc]
    exact h
  · push Not at htime
    obtain ⟨now, rfl⟩ := htime
    obtain ⟨v, hc, hv⟩ := World.blockStep_time hs
    unfold Full
    rw [World.step_returns hv (by simp) (by simp)]
    exact h.creditReady hc

/-- A window credited in full was credited what it owes. -/
theorem Full.creditedFor (h : Full w) (hF : Filed w) {v : UnbondWindow}
    (hv : w.store.windows.lookup id = some v) (hs : v.state = .unbonding)
    (hc : w.credited id ≠ none) : w.creditedFor id = v.scrtOwed.val := by
  have hz := (hF.solvent.booked.shape.ok _ v hv).owed_ne_zero (.inl hs)
  obtain ⟨r, hr, ha, -⟩ := hF.closed id v hv (by simp [hs]) hz
  obtain ⟨c, hcr⟩ := Option.ne_none_iff_exists'.1 hc
  have hrc : r.credited = some c := by simpa [World.credited, hr] using hcr
  rw [World.creditedFor, hcr, Option.getD_some, h id r c hr hrc, ha]

/-- **Windows that have been credited in full are covered.** -/
theorem Full.covers (h : Full w) (hF : Filed w) (hfund : Funded w) (hc : w.Credited t) :
    w.Covers t := by
  have hsum := hfund.marks (t := t) hF.solvent.booked
  have hall : (w.marks t).map (owedIn w.store.windows) = (w.marks t).map w.creditedFor :=
    List.map_congr_left fun id hid => by
      obtain ⟨v, hv, hs, -⟩ := World.marks_in_flight hid
      rw [owedIn_eq hv, h.creditedFor hF hv hs (hc id hid)]
  unfold World.Covers
  rw [hall]
  omega

/-- Windows that get all they owe take together what was credited for them in full. -/
theorem Full.sum_whole (h : Full w) (hF : Filed w) (hT : Turn w t b rets messages w')
    (hc : w.Credited t) :
    (rets.map (·.2.val)).sum ≤ (rets.map fun ret => w.creditedFor ret.1).sum := by
  have hB := hF.solvent.booked
  refine List.sum_le_sum fun ret hret => ?_
  obtain ⟨v, v', hv, -, hs, -, hle, -⟩ := hT.returned hB hret
  rw [h.creditedFor hF hv hs (hc _ (hT.ids ▸ List.mem_map_of_mem hret))]
  exact hle

/-! ## In full, and before it is marked -/

/-- A credit is in full, and a transaction marks only windows that have been credited. -/
def World.InFull (w : World) : Event → Prop
  | .tx t => w.Credited t
  | .credit id amount => ∀ r, w.returns.lookup id = some r → amount.val = r.amount
  | _ => True

/-- **A world whose returns are credited in full.** -/
structure Settling (w : World) : Prop where
  filed : Filed w
  full : Full w
  funded : Funded w

theorem Full.credit {amount : Uint128} (h : Full w) (hs : w.credit id amount = some w')
    (ha : ∀ r, w.returns.lookup id = some r → amount.val = r.amount) : Full w' := by
  obtain ⟨r, b, hr, -, -, -, rfl⟩ := World.credit_ok hs
  intro i r' c hr' hc
  rcases Keymap.put_cases hr' with ⟨rfl, rfl⟩ | ⟨-, hr'⟩
  · obtain rfl := Option.some.inj hc
    exact ha r hr
  · exact h i r' c hr' hc

theorem Settling.step (h : Settling w) (hs : w.step e = some w') (hin : w.InFull e) :
    Settling w' := by
  have hF := h.filed.step hs
  cases e with
  | tx t =>
    obtain ⟨b, rets, messages, hT⟩ := h.filed.solvent.turn hs
    exact ⟨hF, h.full.turn hT,
      h.funded.turn h.filed.solvent.booked hT (h.full.sum_whole h.filed hT hin)⟩
  | credit id amount => exact ⟨hF, h.full.credit hs hin, h.funded.other hs (by simp)⟩
  | _ =>
    refine ⟨hF, ?_, h.funded.other hs (by simp)⟩
    unfold Full
    rw [World.step_returns hs (by simp) (by simp)]
    exact h.full

/-- Along such a run nothing is matured that has not got all it owes. -/
theorem Settling.whole (h : Settling w) (hW : w.Whole) (hs : w.step e = some w')
    (hin : w.InFull e) : w'.Whole := by
  cases e with
  | tx t =>
    obtain ⟨b, rets, messages, hT⟩ := h.filed.solvent.turn hs
    exact (hT.whole_iff h.filed.solvent hW).2 (h.full.covers h.filed h.funded hin)
  | _ => exact hW.other hs (by simp)

section

variable {P : World → Tx → Prop} {h : List Event}

/-- The credits of a block are in full. -/
theorem World.creditReady_inFull (hs : w.creditReady = some w') :
    ∃ h, Run (Guarded (Guarded (Next World.step) InFull) (OnTx P)) w h w' := by
  obtain ⟨hist, hr, -⟩ := World.creditReady_run hs
  refine (hr.refine (I := fun _ => True) trivial ?_).2
  intro v id v' _ hc
  obtain ⟨r, amount, hr, ha, hcr⟩ := World.creditFull_ok hc
  refine ⟨trivial, [.credit id amount], .single ⟨⟨hcr, fun r' hr' => ?_⟩, trivial⟩⟩
  rwa [Option.some.inj (hr'.symm.trans hr)]

/-- **A chain that credits as a block ends** credits in full, and where windows are marked in a later
block they are marked after it. -/
theorem World.blockStep_inFull
    (hr : Run (Guarded (Next World.blockStep) (OnTx fun w t => w.Credited t ∧ P w t)) w h w') :
    ∃ h', Run (Guarded (Guarded (Next World.step) InFull) (OnTx P)) w h' w' := by
  refine (hr.refine (I := fun _ => True) trivial ?_).2
  rintro w e w' - ⟨hs, hP⟩
  refine ⟨trivial, ?_⟩
  cases e with
  | tx t => exact ⟨_, .single ⟨⟨(World.blockStep_other hs (by simp)).1, hP.1⟩, hP.2⟩⟩
  | credit id amount => exact absurd rfl ((World.blockStep_other hs (by simp)).2 id amount)
  | time now =>
    obtain ⟨v, hc, hv⟩ := World.blockStep_time hs
    obtain ⟨h', hr'⟩ := World.creditReady_inFull (P := P) hc
    exact ⟨_, .cons hr' ⟨⟨hv, trivial⟩, trivial⟩⟩
  | _ => exact ⟨_, .single ⟨⟨(World.blockStep_other hs (by simp)).1, trivial⟩, trivial⟩⟩

end

/-! ## Promptly -/

/-- **A world whose returns are credited in full as soon as they are complete.** -/
structure Current (w : World) : Prop where
  filed : Filed w
  full : Full w
  funded : Funded w
  prompt : ∀ id r, w.returns.lookup id = some r → r.completesAt ≤ w.now → r.credited ≠ none

/-- A window that is due has been credited. -/
theorem Current.credited (h : Current w) {v : UnbondWindow}
    (hv : w.store.windows.lookup id = some v) (hs : v.state = .unbonding)
    (hm : v.maturesAt ≤ w.now) : w.credited id ≠ none := by
  have hz := (h.filed.solvent.booked.shape.ok _ v hv).owed_ne_zero (.inl hs)
  obtain ⟨r, hr, -, hat⟩ := h.filed.closed id v hv (by simp [hs]) hz
  have hclock := h.filed.clock
  have hlt : maxBlockSeconds < u64Max := by decide
  have := h.prompt id r hr (by omega)
  simpa [World.credited, hr] using this

theorem Current.marks_credited (h : Current w) (t : Tx) : w.Credited t := fun id hid => by
  obtain ⟨v, hv, hs, hm⟩ := World.marks_in_flight hid
  exact h.credited hv hs hm

theorem Current.creditReady (hF : Filed w) (hfull : Full w) (hfund : Funded w)
    (hs : w.creditReady = some w') : Current w' where
  filed := World.creditReady_inv hF (fun _ _ _ hF hs _ => hF.step hs) hs
  full := hfull.creditReady hs
  funded := World.creditReady_inv hfund (fun _ _ _ hfund hs hne => hfund.other hs hne) hs
  prompt id r' hr' hle := by
    obtain ⟨hin, r, hr, -, hcm, hc⟩ := World.creditAll_ok hs hr'
    rw [(World.creditReady_store hs).2.1, hcm] at hle
    -- either it was ready and has just been credited, or it had been before
    by_cases hready : w.ready id = true
    · exact hin (List.mem_filter.2 ⟨AList.mem_keys.1 (AList.lookup_isSome.1 (by rw [hr]; rfl)), hready⟩)
    · rcases hc with hc | ⟨c, hc, -⟩
      · rw [hc]
        simp only [World.ready, hr, Option.elim_some, decide_eq_true_eq] at hready
        exact fun hnone => hready ⟨hnone, hle⟩
      · simp [hc]

/-- **Every prompt step.** -/
theorem Current.promptStep (h : Current w) (hs : w.promptStep e = some w') : Current w' := by
  obtain ⟨hnc, v, hv, hc⟩ := World.promptStep_ok hs
  by_cases hne : ∀ t, e ≠ .tx t
  · refine Current.creditReady (h.filed.step hv) ?_ (h.funded.other hv hne) hc
    unfold Full
    rw [World.step_returns hv hne hnc]
    exact h.full
  · push Not at hne
    obtain ⟨t, rfl⟩ := hne
    obtain ⟨b, rets, messages, hT⟩ := h.filed.solvent.turn hv
    exact Current.creditReady (h.filed.step hv) (h.full.turn hT)
      (h.funded.turn h.filed.solvent.booked hT
        (h.full.sum_whole h.filed hT (h.marks_credited t))) hc

/-- **A prompt chain** credits in full, and before a window can be marked. -/
theorem Current.inFull {P : World → Tx → Prop} {h : List Event} (hc : Current w)
    (hr : Run (Guarded (World.Next World.promptStep) (World.OnTx P)) w h w') :
    ∃ h', Run (Guarded (Guarded (World.Next World.step) World.InFull) (World.OnTx P)) w h' w' := by
  refine (hr.refine hc ?_).2
  rintro w e w' hc ⟨hs, hP⟩
  refine ⟨hc.promptStep hs, ?_⟩
  obtain ⟨hnc, v, hv, hready⟩ := World.promptStep_ok hs
  obtain ⟨h', hr'⟩ := World.creditReady_inFull (P := P) hready
  have hin : w.InFull e := by
    cases e with
    | tx t => exact hc.marks_credited t
    | credit id amount => exact absurd rfl (hnc id amount)
    | _ => trivial
  exact ⟨_, (Run.single ⟨⟨hv, hin⟩, hP⟩).trans hr'⟩

theorem World.Fresh.full (hf : w.Fresh) : Full w := fun id r c hr => by
  rw [hf.1] at hr
  simp at hr

theorem World.Fresh.settling (hf : w.Fresh) : Settling w := ⟨hf.filed, hf.full, hf.funded⟩

theorem World.Fresh.current (hf : w.Fresh) : Current w where
  filed := hf.filed
  full := hf.full
  funded := hf.funded
  prompt id r hr := by rw [hf.1] at hr; simp at hr

theorem World.Reaches.current (hr : World.Reaches World.promptStep w) : Current w :=
  hr.inv (fun _ hf => hf.current) fun _ _ _ h hs => h.promptStep hs

end LstCore
