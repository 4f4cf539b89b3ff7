import LstCore.Proof.Effect

/-!
# How each window moved

`Passage`: what a call can have done to one window. `Effect.passage`: it did one of these to
every window, the windows it marked are the due ones up to its limit, in order, and it
undelegated exactly when it closed a window that owes something.
-/

namespace LstCore

open Lib

variable {env : Env} {st st' st₁ : Storage} {messages : List CosmosMsg} {balance : Uint128}
  {limit : Option ℕ} {id : ℕ}

/-- The due windows a call marks that marks up to a limit. -/
def marksOf (st : Storage) (now : ℕ) : Option ℕ → List ℕ
  | none => []
  | some limit => (st.activeWindows.filter fun id => dueIn st.windows now id).take (max limit 1)

/-- What the undelegations among messages add up to. -/
def undelegated (messages : List CosmosMsg) : ℕ := ((undelegations messages).map (·.2.val)).sum

/-- Matured, or settled. -/
def UnbondWindow.Back (w : UnbondWindow) : Prop := w.state = .matured ∨ w.state = .settled

/-- **What a call can have done to a window.** -/
inductive Passage (env : Env) (st : Storage) (messages : List CosmosMsg)
    (rets : List (ℕ × Uint128)) (id : ℕ) : Option UnbondWindow → Option UnbondWindow → Prop
  | same {o : Option UnbondWindow} (hn : id ∉ rets.map (·.1)) : Passage env st messages rets id o o
  | opened {v' : UnbondWindow} (hn : id ∉ rets.map (·.1)) (h' : v'.state = .open) :
      Passage env st messages rets id none (some v')
  | joined {v v' : UnbondWindow} (hn : id ∉ rets.map (·.1)) (h : v.state = .open)
      (h' : v'.state = .open) : Passage env st messages rets id (some v) (some v')
  | emptied {v v' : UnbondWindow} (hn : id ∉ rets.map (·.1)) (h : v.state = .open)
      (h' : v'.state = .settled) (hz : v'.scrtOwed = 0) :
      Passage env st messages rets id (some v) (some v')
  | sent {v v' : UnbondWindow} (hn : id ∉ rets.map (·.1)) (hid : id = st.openWindow)
      (h : v.state = .open) (h' : v'.state = .unbonding) (hz : v'.scrtOwed ≠ 0)
      (hu : undelegations messages ≠ []) (ho : undelegated messages = v'.scrtOwed.val)
      (hm : v'.maturesAt = satAdd64 env.time st.config.params.unbondingPeriodSecs) :
      Passage env st messages rets id (some v) (some v')
  | returned {v v' : UnbondWindow} {r : Uint128} (hr : (id, r) ∈ rets) (h : v.state = .unbonding)
      (h' : v'.Back) (hle : r ≤ v.scrtOwed) (ho : v'.scrtOwed = v.scrtOwed)
      (hm : v'.maturesAt = v.maturesAt) (hre : v'.scrtRealised = some r) :
      Passage env st messages rets id (some v) (some v')
  | paid {v v' : UnbondWindow} (hn : id ∉ rets.map (·.1)) (h : v.state = .matured) (h' : v'.Back)
      (ho : v'.scrtOwed = v.scrtOwed) (hm : v'.maturesAt = v.maturesAt)
      (hre : v'.scrtRealised = v.scrtRealised) : Passage env st messages rets id (some v) (some v')

/-! ## Closing -/

/-- The amounts of the messages issued for a plan are those of its legs. -/
theorem undelegations_zipWith (denom : String) : ∀ {used : List String}
    {legs : List Validators.UnbondLeg}, used.length = legs.length →
    (undelegations (List.zipWith (fun a leg => CosmosMsg.undelegate a ⟨denom, leg.amount⟩)
      used legs)).map (·.2.val) = legs.map (·.amount.val) := by
  intro used
  induction used with
  | nil => intro legs hl; cases legs <;> simp_all [undelegations]
  | cons a used ih =>
    intro legs hl
    cases legs with
    | nil => simp at hl
    | cons leg legs =>
      have := @ih legs (by simpa using hl)
      simp only [undelegations] at this ⊢
      simp [this]

/-- **What closing undelegates**: all the window owes. -/
theorem Undelegated.undelegations {v : UnbondWindow} {vs : List ValidatorEntry} {ts : TotalsCache}
    {used : List String} (hS : Slotted st) (h : Undelegated st v vs ts used messages) :
    undelegated messages = v.scrtOwed.val ∧ (undelegations messages = [] ↔ v.scrtOwed = 0) := by
  cases h with
  | nothing hz => simp [undelegated, LstCore.undelegations, hz]
  | issued hz hplan hissue hou =>
    rename_i legs acc ou
    obtain ⟨hd, hsum⟩ := Validators.planUndelegation_ok hplan
    have hb := hS.bounded
    obtain ⟨used, -, -, hlen, -, -, -, -, hm⟩ := issueLegs_ok
      (by simp only [chainMaxUnbondEntries, u8Max] at hb ⊢; omega) legs _ acc hissue
      (by rw [← addresses_eq]; exact hS.distinct) hd
    have hmap := undelegations_zipWith st.config.bondedDenom hlen
    rw [List.nil_append] at hm
    rw [hm]
    have hval : undelegated (List.zipWith (fun a leg => CosmosMsg.undelegate a
        ⟨st.config.bondedDenom, leg.amount⟩) used legs) = v.scrtOwed.val := by
      unfold undelegated
      rw [hmap, hsum]
    -- no message would undelegate nothing, and the window owes something
    refine ⟨hval, fun hnil => ?_, fun h0 => absurd h0 hz⟩
    rw [undelegated, hnil] at hval
    exact Word.eq_zero_iff.2 hval.symm

/-! ## Paying -/

/-- What payments can have done to a window. -/
def Kept (o o' : Option UnbondWindow) : Prop :=
  o' = o ∨ ∃ v v', o = some v ∧ o' = some v' ∧ v.state = .matured ∧ v'.Back ∧
    v'.scrtOwed = v.scrtOwed ∧ v'.maturesAt = v.maturesAt ∧ v'.scrtRealised = v.scrtRealised

/-- A payment leaves its window matured or settled, with what it recorded. -/
theorem Kept.pay {o : Option UnbondWindow} {w : UnbondWindow} {sc : Uint128}
    (h : Kept o (some w)) (hs : w.state = .matured) : Kept o (some (w.paying sc)) := by
  have hback : (w.paying sc).Back := by
    unfold UnbondWindow.Back
    rw [UnbondWindow.state_paying, hs]
    split <;> simp
  refine .inr ?_
  rcases h with rfl | ⟨v, v', rfl, he, hv, -, ho, hm, hr⟩
  · exact ⟨w, w.paying sc, rfl, rfl, hs, hback, by simp, by simp, by simp⟩
  · cases he
    exact ⟨v, w.paying sc, rfl, rfl, hv, hback, by simpa using ho, by simpa using hm, by simpa using hr⟩

theorem Payment.kept {u : Addr} {ids : List ℕ} {paid : Uint128} {hist : List Move}
    (hP : Payment env u ids st st' paid hist) (id : ℕ) :
    Kept (st.windows.lookup id) (st'.windows.lookup id) := by
  refine hP.run.inv_of_mem (P := fun q => ∀ id, Kept (st.windows.lookup id) (q.windows.lookup id))
    (fun _ => .inl rfl) ?_ id
  intro q m q' hm hk hs i
  have hpay := hP.isPay m hm
  cases m with
  | pay v j p =>
    obtain ⟨w, c, sc, hw, hmat, -, -, -, -, -, hwin, -⟩ := hs.pay_windows
    have hj := hk j
    rw [hwin, Keymap.lookup_put]
    split
    · rename_i hij
      subst hij
      rw [hw] at hj
      exact hj.pay hmat
    · exact hk i
  | _ => exact absurd hpay (by simp [Move.isPay])

/-! ## Every call -/

/-- The windows a call marks, in order, and what each gets. -/
structure Taken (now : ℕ) (limit : Option ℕ) (balance : Uint128) (st : Storage)
    (rets : List (ℕ × Uint128)) : Prop where
  ids : rets.map (·.1) = marksOf st now limit
  amounts : rets.map (·.2.val) = pour (balance.val - st.totals.scrtOwedMatured.val)
    ((marksOf st now limit).map (owedIn st.windows))

theorem taken_none (now : ℕ) (balance : Uint128) (st : Storage) : Taken now none balance st [] :=
  ⟨rfl, rfl⟩

theorem Marking.taken {now n : ℕ} {rets : List (ℕ × Uint128)}
    (hM : Marking now n balance st st' rets) : Taken now (some n) balance st rets :=
  ⟨hM.due, by rw [hM.amounts, hM.due]; rfl⟩

/-- While only the open window has moved, it is still open. -/
theorem Idle.passage (h : Idle st st') (hB : Booked st) (hB' : Booked st') (id : ℕ) :
    Passage env st messages [] id (st.windows.lookup id) (st'.windows.lookup id) := by
  -- the open window may have been joined, and the others are as they were
  by_cases hid : id = st.openWindow
  · obtain ⟨v, hv⟩ := (hB.shape.mem id).2 (by rw [hB.shape.next]; simp [Storage.queue, hid])
    obtain ⟨v', hv'⟩ := (hB'.shape.mem id).2 (by
      rw [hB'.shape.next]; simp [Storage.queue, hid, h.openWindow])
    have hs := (hB.shape.isOpen id v hv).2 hid
    have hs' := (hB'.shape.isOpen id v' hv').2 (hid.trans h.openWindow.symm)
    rw [show st.windows.lookup id = some v from hv, show st'.windows.lookup id = some v' from hv']
    exact .joined (by simp) hs hs'
  · rw [h.windows id hid]
    exact .same (by simp)

/-- Closing sends the open window off with what it owes, or empties it. -/
theorem Idle.closing {closing : Closing} {w : UnbondWindow} (hi : Idle st st₁) (hB : Booked st)
    (hB₁ : Booked st₁) (hS : Slotted st₁) (hw : st₁.windows.lookup st₁.openWindow = some w)
    (hopen : w.state = .open) (hdue : w.closesAt ≤ env.time)
    (hc : closeOpenWindow env st₁ = .ok (st', closing))
    (hm : undelegations messages = undelegations closing.messages) :
    (∀ id, Passage env st messages [] id (st.windows.lookup id) (st'.windows.lookup id)) ∧
      (undelegations messages ≠ [] →
        ∃ v', st'.windows.lookup st.openWindow = some v' ∧ v'.state = .unbonding) := by
  obtain ⟨used, hund, -, hstep⟩ := closeOpenWindow_ok hw hopen hdue hc
  obtain ⟨hsum, hnil⟩ := hund.undelegations hS
  rw [undelegated, ← hm] at hsum
  rw [← hm] at hnil
  have ho := hi.openWindow
  have hnext : st₁.nextWindowId = st.openWindow + 1 := by rw [← ho]; exact hB₁.shape.next
  obtain ⟨v, hv⟩ := (hB.shape.mem st.openWindow).2 (by rw [hB.shape.next]; exact Nat.lt_succ_self _)
  have hvs := (hB.shape.isOpen _ v hv).2 rfl
  have hfresh : st.windows.lookup (st.openWindow + 1) = none := by
    have := hB.shape.lookup_next
    rwa [hB.shape.next] at this
  have hlook : ∀ (w' : UnbondWindow) (active : List ℕ),
      st'.queue = st₁.queue.advance env.time st₁.config.params.unbondWindowSecs w' active →
      ∀ id, st'.windows.lookup id = if id = st.openWindow + 1 then
          some (Windows.open (st.openWindow + 1) env.time st₁.config.params.unbondWindowSecs)
        else if id = st.openWindow then some w' else st₁.windows.lookup id := by
    intro w' active hq id
    rw [show st'.windows.lookup id = st'.queue.windows.lookup id from rfl, hq,
      Queue.lookup_advance]
    simp only [Storage.queue, hnext, ho]
  -- the closed window and its successor; every other one is as it was
  have key : ∀ (w' : UnbondWindow) (active : List ℕ),
      st'.queue = st₁.queue.advance env.time st₁.config.params.unbondWindowSecs w' active →
      Passage env st messages [] st.openWindow (some v) (some w') →
      ∀ id, Passage env st messages [] id (st.windows.lookup id) (st'.windows.lookup id) := by
    intro w' active hq hp id
    rw [hlook w' active hq]
    split
    · rename_i h; subst h; rw [hfresh]; exact .opened (by simp) rfl
    · split
      · rename_i h; subst h
        rw [show st.windows.lookup st.openWindow = some v from hv]
        exact hp
      · rename_i h; rw [hi.windows id h]; exact .same (by simp)
  generalize hq : st'.queue = q' at hstep
  cases hstep with
  | closeEmpty hw' _ _ hz =>
    rw [show st₁.queue.windows.lookup st₁.queue.openWindow = some w from hw, Option.some.injEq] at hw'
    subst hw'
    exact ⟨key _ _ hq (.emptied (by simp) hvs rfl hz), fun hne => absurd (hnil.2 hz) hne⟩
  | close hw' _ _ hz =>
    rw [show st₁.queue.windows.lookup st₁.queue.openWindow = some w from hw, Option.some.injEq] at hw'
    subst hw'
    refine ⟨key _ _ hq (.sent (by simp) rfl hvs rfl hz (fun h => hz (hnil.1 h)) hsum ?_),
      fun _ => ⟨_, by rw [hlook _ _ hq, if_neg (by omega), if_pos rfl], rfl⟩⟩
    rw [← hi.period]
    rfl

/-- **How a call moved each window.** -/
theorem Effect.passage (hB : Booked st) (hB' : Booked st')
    (he : Effect env balance limit st st' messages) : ∃ rets, Taken env.time limit balance st rets ∧
      (∀ id, Passage env st messages rets id (st.windows.lookup id) (st'.windows.lookup id)) ∧
      (undelegations messages ≠ [] →
        ∃ v', st'.windows.lookup st.openWindow = some v' ∧ v'.state = .unbonding) := by
  cases he with
  | idle hl h hm =>
    subst hl
    exact ⟨[], taken_none _ _ _, h.passage hB hB', fun hne => absurd hm hne⟩
  | closed hl h hB₁ hS hw hopen hdue hc hm =>
    subst hl
    exact ⟨[], taken_none _ _ _, h.closing hB hB₁ hS hw hopen hdue hc hm⟩
  | marked hl hM hm =>
    rename_i n rets
    subst hl hm
    refine ⟨rets, hM.taken, fun id => ?_, fun hne => absurd rfl hne⟩
    by_cases hid : id ∈ rets.map (·.1)
    · obtain ⟨ret, hret, rfl⟩ := List.mem_map.1 hid
      obtain ⟨v, hv, hs, -, hle, hv''⟩ := hM.lookup_of_mem hB hret
      rw [hv, hv'']
      exact .returned hret hs (.inl rfl) hle rfl rfl rfl
    · rw [hM.lookup_of_not_mem hid]
      exact .same hid
  | paid hl hM hP hm =>
    rename_i st₁ rets u ids paid hist
    subst hl hm
    refine ⟨rets, hM.taken, fun id => ?_, fun hne => absurd rfl hne⟩
    have hk := hP.kept id
    by_cases hid : id ∈ rets.map (·.1)
    · obtain ⟨ret, hret, rfl⟩ := List.mem_map.1 hid
      obtain ⟨v, hv, hs, -, hle, hv''⟩ := hM.lookup_of_mem hB hret
      rw [hv''] at hk
      rw [hv]
      -- marked only, or marked and paid from in the same call
      rcases hk with hk | ⟨_, v', hv₁, hv', -, hb, ho, hm, hr⟩
      · rw [hk]
        exact .returned hret hs (.inl rfl) hle rfl rfl rfl
      · cases hv₁
        rw [hv']
        exact .returned hret hs hb hle ho hm hr
    · rw [hM.lookup_of_not_mem hid] at hk
      rcases hk with hk | ⟨v, v', hv, hv', hs, hb, ho, hm, hr⟩
      · rw [hk]
        exact .same hid
      · rw [hv, hv']
        exact .paid hid hs hb ho hm hr

end LstCore
