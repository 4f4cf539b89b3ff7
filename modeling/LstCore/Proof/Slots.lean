import LstCore.Queue.Slots
import LstCore.Proof.Refine

/-!
# Slots

* `Slotted`: each validator's counter is the number of windows in flight that drew on it,
  at most the ceiling; each such window names its validators once, and they are in the set.
* `step_slotted`: every call keeps it; `Reachable.slotted`: so it holds in every reachable
  storage.
* `Slotted.inFlightCount_le`: there are never more than 120 windows in flight.
-/

namespace LstCore

open Lib

variable {deps : Deps} {env : Env} {info : MessageInfo} {st st' st₁ : Storage} {resp : Response}
  {a : String}

/-- The addresses of a set. -/
def addresses (set : List ValidatorEntry) : List String := (slots set).map (·.1)

theorem addresses_eq (set : List ValidatorEntry) : addresses set = set.map (·.address) := by
  simp [addresses, slots, slot, Function.comp_def]

theorem addresses_pageOf (set : List ValidatorEntry) (cursor stop : ℕ) :
    addresses (pageOf cursor stop set) = ((addresses set).take stop).drop cursor := by
  rw [addresses_eq, addresses_eq, pageOf, List.map_drop, List.map_take]

/-- **A compound harvests its page.** -/
theorem Compounded.takes {limit : Option ℕ} (c : Compounded deps env limit st)
    (ha : a ∈ addresses (pageOf st.syncCursor c.stop st.validators))
    (hr : rewardsAt deps env.contract.address st.config.bondedDenom a ≠ 0) :
    CosmosMsg.withdrawDelegatorReward a ∈ c.messages := by
  rw [addresses_eq] at ha
  obtain ⟨v, hv, rfl⟩ := List.mem_map.1 ha
  refine List.mem_append_left _ (List.mem_map.2 ⟨v, List.mem_filter.2 ⟨hv, ?_⟩, rfl⟩)
  exact decide_eq_true hr

/-- **Slots are accounted for.** -/
structure Slotted (st : Storage) : Prop where
  distinct : (addresses st.validators).Nodup
  allowed : ∀ a ∈ addresses st.validators, a ∈ st.allowlist
  few : st.allowlist.length ≤ maxValidators
  listed : ∀ id w, st.windows.lookup id = some w → w.state = .unbonding →
    w.validatorsUsed.Nodup ∧ w.validatorsUsed ≠ [] ∧
      ∀ a ∈ w.validatorsUsed, a ∈ addresses st.validators
  counted : ∀ s ∈ slots st.validators, s.2 = st.queue.uses s.1
  ceiling : ∀ s ∈ slots st.validators, s.2 ≤ st.config.params.maxUnbondEntriesPerValidator
  bounded : st.config.params.maxUnbondEntriesPerValidator < chainMaxUnbondEntries

/-- A validator outside the set is drawn on by nothing. -/
theorem Slotted.uses_eq_zero (h : Slotted st) (ha : a ∉ addresses st.validators) :
    st.queue.uses a = 0 := by
  refine Keymap.total_eq_zero fun id w hw => ?_
  unfold Queue.holds
  rw [if_neg]
  rintro ⟨hs, hu⟩
  exact ha ((h.listed id w hw hs).2.2 a hu)

/-! ## What keeps the slots -/

/-- What adds free slots of allowed validators and leaves the windows in flight alone. -/
theorem Slotted.frame (h : Slotted st) (new : List String)
    (hs : slots st'.validators = slots st.validators ++ new.map (·, 0)) (hnd : new.Nodup)
    (hnew : ∀ a ∈ new, a ∈ st.allowlist ∧ a ∉ addresses st.validators)
    (hal : st'.allowlist = st.allowlist)
    (hmax : st'.config.params.maxUnbondEntriesPerValidator =
      st.config.params.maxUnbondEntriesPerValidator)
    (hw : ∀ id w, st'.windows.lookup id = some w → w.state = .unbonding →
      st.windows.lookup id = some w)
    (hu : ∀ a, st'.queue.uses a = st.queue.uses a) : Slotted st' := by
  have ha : addresses st'.validators = addresses st.validators ++ new := by
    unfold addresses; rw [hs]; simp [Function.comp_def]
  refine ⟨?_, ?_, hal ▸ h.few, ?_, ?_, ?_, hmax ▸ h.bounded⟩
  · rw [ha]
    exact h.distinct.append hnd fun x hx hx' => (hnew x hx').2 hx
  · intro x hx
    rw [ha] at hx
    rw [hal]
    rcases List.mem_append.1 hx with hx | hx
    · exact h.allowed x hx
    · exact (hnew x hx).1
  · intro id w hl hf
    obtain ⟨h1, h2, h3⟩ := h.listed id w (hw id w hl hf) hf
    exact ⟨h1, h2, fun x hx => by rw [ha]; exact List.mem_append_left _ (h3 x hx)⟩
  · intro s hmem
    rw [hs] at hmem
    rw [hu]
    rcases List.mem_append.1 hmem with hmem | hmem
    · exact h.counted s hmem
    · -- no window in flight drew on an entry that was not there
      obtain ⟨x, hx, rfl⟩ := List.mem_map.1 hmem
      exact (h.uses_eq_zero (hnew x hx).2).symm
  · intro s hmem
    rw [hs] at hmem
    rw [hmax]
    rcases List.mem_append.1 hmem with hmem | hmem
    · exact h.ceiling s hmem
    · obtain ⟨x, -, rfl⟩ := List.mem_map.1 hmem
      exact Nat.zero_le _

theorem Slotted.still (h : Slotted st) (hs : Still st st')
    (hsl : slots st'.validators = slots st.validators) : Slotted st' := by
  have hw : st'.windows = st.windows := congrArg Queue.windows hs.queue
  exact h.frame [] (by simpa using hsl) List.nodup_nil (by simp) hs.allowlist hs.ceiling
    (fun id w hl _ => hw ▸ hl) fun a => by rw [hs.queue]

theorem Slotted.manager (h : Slotted st) {m : ManagerMsg}
    (hm : executeManager info m st = .ok (st', resp)) : Slotted st' := by
  have hs := executeManager_still hm
  obtain ⟨new, hsl, hnd, hmem, -, -⟩ := executeManager_slots hm
  have hw : st'.windows = st.windows := congrArg Queue.windows hs.queue
  exact h.frame new hsl hnd (by simpa only [addresses_eq] using hmem) hs.allowlist hs.ceiling
    (fun id w hl _ => hw ▸ hl) fun a => by rw [hs.queue]

/-- A run of moves that close nothing and return nothing. -/
theorem Slotted.moves (h : Slotted st) {hist : List Move}
    (hr : Run Queue.Step st.queue hist st'.queue)
    (hm : ∀ m ∈ hist, m.isPay ∨ ∃ u shares owed, m = .join u shares owed)
    (hv : st'.validators = st.validators) (hc : st'.config = st.config)
    (hal : st'.allowlist = st.allowlist) : Slotted st' := by
  -- requests and payments put no window in flight and take none out
  have key := hr.inv_of_mem (P := fun q => (∀ id w, q.windows.lookup id = some w →
      w.state = .unbonding → st.windows.lookup id = some w) ∧ ∀ a, q.uses a = st.queue.uses a)
    ⟨fun _ _ hl _ => hl, fun _ => rfl⟩ ?_
  · exact h.frame [] (by simp [hv]) List.nodup_nil (by simp) hal (by rw [hc]) key.1 key.2
  · intro q m q' hmem hP hs
    constructor
    · intro id w hl hf
      rcases hs.in_flight hl hf with hl | ⟨_, _, _, _, _, rfl, -⟩
      · exact hP.1 id w hl hf
      · rcases hm _ hmem with hpay | ⟨_, _, _, he⟩
        · exact hpay.elim
        · cases he
    · intro a
      rw [← hP.2 a]
      rcases hm _ hmem with hpay | ⟨_, _, _, rfl⟩
      · cases m with
        | pay => exact Queue.uses_pay hs
        | _ => exact hpay.elim
      · exact Queue.uses_join hs

/-! ## Closing -/

/-- **What closing makes of the slots**: one taken from each validator named, each with room. -/
theorem Undelegated.slots {w : UnbondWindow} {vs : List ValidatorEntry} {ts : TotalsCache}
    {used : List String} {messages : List CosmosMsg} (h : Slotted st)
    (hu : Undelegated st w vs ts used messages) (hw : w.validatorsUsed = []) :
    used.Nodup ∧ slots vs = (slots st.validators).map (taken used) ∧
      (w.scrtOwed ≠ 0 → used ≠ []) ∧ (w.scrtOwed = 0 → used = []) ∧
      (∀ a ∈ used, ∃ s ∈ slots st.validators, s.1 = a) ∧
      ∀ s ∈ slots st.validators, s.1 ∈ used →
        s.2 < st.config.params.maxUnbondEntriesPerValidator := by
  cases hu with
  | nothing hz => rw [hw]; simp [hz]
  | issued hz hplan hissue hou =>
    rename_i legs acc ou
    obtain ⟨hd, hsum⟩ := Validators.planUndelegation_ok hplan
    have hb : st.config.params.maxUnbondEntriesPerValidator < u8Max := by
      have := h.bounded
      simp only [chainMaxUnbondEntries, u8Max] at this ⊢
      omega
    obtain ⟨used, he, hnd, hlen, hmem, hs, -⟩ := issueLegs_ok hb legs _ acc hissue
      (by rw [← addresses_eq]; exact h.distinct) hd
    have hused : acc.used = used := by rw [he, hw]; rfl
    rw [hused]
    refine ⟨hnd, hs, fun _ hnil => ?_, fun h0 => absurd h0 hz, ?_, ?_⟩
    · -- a plan with no legs undelegates nothing
      have hlegs : legs = [] := by
        rw [hnil] at hlen
        exact List.length_eq_zero_iff.1 hlen.symm
      rw [hlegs] at hsum
      exact hz (Word.eq_zero_iff.2 hsum.symm)
    · intro a ha
      obtain ⟨leg, -, v, hv, rfl⟩ := hmem a ha
      exact ⟨slot v, List.mem_map_of_mem (List.mem_of_getElem? hv), rfl⟩
    · intro s hs hin
      obtain ⟨leg, hleg, v, hv, hva⟩ := hmem _ hin
      obtain ⟨v', hv', -, hfree⟩ := hd.covered leg hleg
      rw [hv] at hv'
      cases hv'
      -- the slot is that of the validator the leg draws on
      have hsv : s = slot v := by
        have hinj := List.inj_on_of_nodup_map h.distinct
        exact hinj hs (List.mem_map_of_mem (List.mem_of_getElem? hv)) hva.symm
      rw [hsv]
      exact hfree

theorem Undelegated.addresses {w : UnbondWindow} {vs : List ValidatorEntry} {ts : TotalsCache}
    {used : List String} {messages : List CosmosMsg} (h : Slotted st)
    (hu : Undelegated st w vs ts used messages) (hw : w.validatorsUsed = []) :
    addresses vs = addresses st.validators := by
  obtain ⟨-, hs, -⟩ := hu.slots h hw
  unfold LstCore.addresses
  rw [hs, List.map_map]
  exact List.map_congr_left fun _ _ => rfl

theorem Slotted.closing {closing : Closing} {w : UnbondWindow} (h : Slotted st) (hB : Booked st)
    (hw : st.windows.lookup st.openWindow = some w) (hopen : w.state = .open)
    (hdue : w.closesAt ≤ env.time) (hc : closeOpenWindow env st = .ok (st', closing)) :
    Slotted st' := by
  obtain ⟨used, hund, ⟨hcfg, hal, -⟩, hstep⟩ := closeOpenWindow_ok hw hopen hdue hc
  have hnil := hB.used_nil hw hopen
  obtain ⟨hnd, hs, hne, hz, hin, hroom⟩ := hund.slots h hnil
  have ha : addresses st'.validators = addresses st.validators := hund.addresses h hnil
  -- an empty window takes no slot and counts for none
  have huses : ∀ s ∈ slots st.validators, (taken used s).2 = st'.queue.uses s.1 := by
    intro s hmem
    rw [Queue.uses_close hB.shape hw hstep, taken, h.counted s hmem]
    by_cases h0 : w.scrtOwed = 0
    · simp [h0, hz h0]
    · simp [h0]
  refine ⟨ha ▸ h.distinct, by rw [ha, hal]; exact h.allowed, hal ▸ h.few, ?_, ?_, ?_,
    hcfg ▸ h.bounded⟩
  · intro id v hv hf
    rcases hstep.in_flight hv hf with hv | ⟨_, _, _, _, v₀, he, hv₀, h0, rfl⟩
    · rw [ha]; exact h.listed id v hv hf
    · cases he
      rw [show st.queue.windows.lookup st.queue.openWindow = some w from hw] at hv₀
      cases hv₀
      refine ⟨hnd, hne h0, fun a hau => ?_⟩
      obtain ⟨s, hmem, rfl⟩ := hin a hau
      rw [ha]
      exact List.mem_map_of_mem hmem
  · intro s hmem
    rw [hs] at hmem
    obtain ⟨s, hs₀, rfl⟩ := List.mem_map.1 hmem
    exact huses s hs₀
  · intro s hmem
    rw [hs] at hmem
    obtain ⟨s, hs₀, rfl⟩ := List.mem_map.1 hmem
    rw [hcfg, taken]
    have := h.ceiling s hs₀
    split
    · have := hroom s hs₀ ‹_›
      omega
    · omega

/-! ## Marking -/

/-- The mentions of a validator by different windows in flight are at most its slots. -/
theorem Slotted.count_mentions (h : Slotted st) {ids : List ℕ} (hnd : ids.Nodup)
    (hids : ∀ id ∈ ids, ∃ w, st.windows.lookup id = some w ∧ w.state = .unbonding) :
    (ids.flatMap (usedIn st.windows)).count a =
        (ids.map fun id => (st.windows.lookup id).elim 0 (Queue.holds a)).sum ∧
      (ids.flatMap (usedIn st.windows)).count a ≤ st.queue.uses a := by
  have hcount : (ids.flatMap (usedIn st.windows)).count a =
      (ids.map fun id => (st.windows.lookup id).elim 0 (Queue.holds a)).sum := by
    rw [List.count_flatMap]
    congr 1
    refine List.map_congr_left fun id hid => ?_
    obtain ⟨w, hw, hs⟩ := hids id hid
    obtain ⟨hn, -, -⟩ := h.listed id w hw hs
    rw [Function.comp_apply, usedIn_eq hw, hw, Option.elim_some, hn.count]
    simp [Queue.holds, hs]
  exact ⟨hcount, hcount ▸ Keymap.sum_le_total (f := fun _ w => Queue.holds a w) hnd⟩

theorem Slotted.marking {now limit : ℕ} {balance : Uint128} {rets : List (ℕ × Uint128)}
    (h : Slotted st) (hB : Booked st) (hM : Marking now limit balance st st' rets) : Slotted st' := by
  have hv : slots st'.validators = (slots st.validators).map
      (released ((rets.map (·.1)).flatMap (usedIn st.windows))) := by
    rw [hM.frame]
    exact slots_release _ _ (by rw [← addresses_eq]; exact h.distinct)
  have ha : addresses st'.validators = addresses st.validators := by
    unfold addresses
    rw [hv, List.map_map]
    exact List.map_congr_left fun _ _ => rfl
  have hcfg : st'.config = st.config := by rw [hM.frame]
  have hal : st'.allowlist = st.allowlist := by rw [hM.frame]
  have hlook : ∀ id w, st'.windows.lookup id = some w → w.state = .unbonding →
      st.windows.lookup id = some w := by
    -- what is still in flight was not marked
    intro id w hl hf
    by_cases hid : id ∈ rets.map (·.1)
    · obtain ⟨ret, hret, rfl⟩ := List.mem_map.1 hid
      obtain ⟨v, -, -, -, -, hv'⟩ := hM.lookup_of_mem hB hret
      rw [hl] at hv'
      cases hv'
      simp [UnbondWindow.returned] at hf
    · rwa [hM.lookup_of_not_mem hid] at hl
  have hids : ∀ id ∈ rets.map (·.1), ∃ w, st.windows.lookup id = some w ∧ w.state = .unbonding := by
    intro id hid
    obtain ⟨ret, hret, rfl⟩ := List.mem_map.1 hid
    obtain ⟨w, hw, hs, -⟩ := hM.window hret
    exact ⟨w, hw, hs⟩
  refine ⟨ha ▸ h.distinct, by rw [ha, hal]; exact h.allowed, hal ▸ h.few, ?_, ?_, ?_,
    hcfg ▸ h.bounded⟩
  · intro id w hl hf
    rw [ha]
    exact h.listed id w (hlook id w hl hf) hf
  · intro s hmem
    rw [hv] at hmem
    obtain ⟨s, hs₀, rfl⟩ := List.mem_map.1 hmem
    -- each window marked gives back the one slot it held of this validator
    have hdrop : st'.queue.uses s.1 +
        (rets.map fun ret => (st.windows.lookup ret.1).elim 0 (Queue.holds s.1)).sum =
          st.queue.uses s.1 :=
      hM.total_drop hB (fun _ w => Queue.holds s.1 w) fun _ w r => by
        simp [Queue.holds, UnbondWindow.returned]
    obtain ⟨hc, -⟩ := h.count_mentions (a := s.1) (hM.nodup hB) hids
    rw [List.map_map] at hc
    show s.2 - _ = st'.queue.uses s.1
    rw [h.counted s hs₀, hc]
    simp only [Function.comp_def]
    omega
  · intro s hmem
    rw [hv] at hmem
    obtain ⟨s, hs₀, rfl⟩ := List.mem_map.1 hmem
    rw [hcfg]
    exact (Nat.sub_le _ _).trans (h.ceiling s hs₀)

/-! ## Every call -/

theorem Slotted.closesFrom (h : Slotted st) (hc : ClosesFrom st st₁) : Slotted st₁ := by
  cases hc with
  | advance => exact h
  | deposit hd =>
    obtain ⟨d, rfl, -⟩ := acceptDeposit_ok hd
    exact h.still d.still d.slots_next
  | receive hr =>
    obtain ⟨st₂, hs, hsl, hj⟩ := requestWithdrawal_join hr
    obtain ⟨u, oo, -, hstep, -, hst⟩ := joinWindow_ok hj
    exact (h.still hs hsl).moves (.single hstep)
      (fun m hm => .inr ⟨_, _, _, List.mem_singleton.1 hm⟩)
      (by rw [hst]) (by rw [hst]) (by rw [hst])

theorem Slotted.overdue {messages : List CosmosMsg} (h : Slotted st) (hB : Booked st)
    (hc : closeWindowIfOverdue env st = .ok (st', messages)) : Slotted st' := by
  rcases closeWindowIfOverdue_ok hc with ⟨rfl, -⟩ | ⟨w, closing, hw, hopen, hdue, hc, -⟩
  · exact h
  · exact h.closing hB hw hopen hdue hc

theorem Slotted.payment {u : Addr} {ids : List ℕ} {paid : Uint128} {hist : List Move}
    (h : Slotted st) (hP : Payment env u ids st st' paid hist) : Slotted st' :=
  h.moves hP.run (fun m hm => .inl (hP.isPay m hm)) (by rw [hP.frame]) (by rw [hP.frame])
    (by rw [hP.frame])

/-- **Every call keeps the slots accounted for.** -/
theorem step_slotted {e : Call × Response} (h : Slotted st) (hB : Booked st) (hs : Step st e st') :
    Slotted st' := by
  obtain ⟨call, resp⟩ := e
  cases call with
  | migrate =>
    obtain ⟨rfl, -⟩ := migrate_ok hs
    exact h.still (.of_write rfl rfl rfl rfl) rfl
  | execute deps env info msg =>
    cases msg with
    | deposit =>
      obtain ⟨st₁, _, _, _, _, ha, hc, -⟩ := executeDeposit_ok hs
      exact (h.closesFrom (.deposit ha)).overdue (hB.closesFrom (.deposit ha)) hc
    | receive sender fromAddr amount msg =>
      obtain ⟨st₁, _, _, _, _, hr, hc, -⟩ := executeReceive_ok hs
      exact (h.closesFrom (.receive hr)).overdue (hB.closesFrom (.receive hr)) hc
    | claimMatured windowIds =>
      obtain ⟨_, _, st₁, _, _, -, hM, -, hP, -⟩ := executeClaimMatured_ok hB hs
      exact (h.marking hB hM).payment hP
    | compound limit =>
      obtain ⟨c, rfl, -⟩ := executeCompound_ok hs
      exact h.still c.still c.slots_next
    | advanceWindow =>
      obtain ⟨w, closing, hw, hopen, hdue, hc, -⟩ := executeAdvanceWindow_ok hs
      exact h.closing hB hw hopen hdue hc
    | collectMatured limit =>
      obtain ⟨ids, hmat, -⟩ := executeCollectMatured_ok hs
      obtain ⟨_, _, -, hM, -⟩ := matureDueWindows_ok hB hmat
      exact h.marking hB hM
    | sync limit =>
      obtain ⟨s, rfl, -⟩ := executeSync_ok hs
      exact h.still s.still s.slots_next
    | manager m => exact h.manager hs
    | setPaused paused =>
      obtain ⟨rfl, -⟩ := executeSetPaused_ok hs
      exact h.still (.of_write rfl rfl rfl rfl) rfl
    | bootstrap tokenAddress tokenCodeHash =>
      obtain ⟨s, rfl, -⟩ := executeBootstrap_ok hs
      exact h.still (s.still _ _) (s.slots_next _ _)

theorem firstDuplicate_none : ∀ {l seen : List String}, Validators.firstDuplicate seen l = none →
    l.Nodup ∧ ∀ a ∈ l, a ∉ seen := by
  intro l
  induction l with
  | nil => intro seen _; exact ⟨List.nodup_nil, by simp⟩
  | cons a l ih =>
    intro seen h
    unfold Validators.firstDuplicate at h
    split at h
    · simp at h
    · rename_i ha
      obtain ⟨hnd, hseen⟩ := ih h
      exact ⟨List.nodup_cons.2 ⟨fun hin => hseen a hin List.mem_cons_self, hnd⟩,
        List.forall_mem_cons.2 ⟨ha, fun b hb hin => hseen b hb (List.mem_cons_of_mem _ hin)⟩⟩

theorem validateSet_nodup {validators : List ValidatorInit}
    (h : Validators.validateSet validators = .ok ()) :
    validators ≠ [] ∧ (validators.map (·.address)).Nodup := by
  unfold Validators.validateSet at h
  rw [guard_eq_ok] at h
  obtain ⟨hne, h⟩ := h
  split at h
  · simp at h
  · rename_i hd
    exact ⟨hne, (firstDuplicate_none hd).1⟩

/-- **What instantiation checks** is where the slots start from. -/
theorem slotted_initial {config : Config} {msg : InstantiateMsg} (env : Env)
    (hc : checkInstantiate msg = .ok ()) (hp : config.params = msg.params) :
    Slotted (initialStorage env config msg.validatorAllowlist msg.validators) := by
  unfold checkInstantiate at hc
  simp only [bind_eq_ok, guard_eq_ok, not_lt] at hc
  obtain ⟨_, hpar, _, hset, hlen, _, -, _, hman, -⟩ := hc
  obtain ⟨-, hnd⟩ := validateSet_nodup hset
  obtain ⟨-, hall⟩ := validateManagedWeights_mem hman
  have ha : addresses (initialStorage env config msg.validatorAllowlist msg.validators).validators =
      msg.validators.map (·.address) := by
    simp [addresses, initialStorage, initialValidatorSet, slots, slot, Validators.newEntry,
      Function.comp_def]
  have hz : ∀ s ∈ slots (initialStorage env config msg.validatorAllowlist msg.validators).validators,
      s.2 = 0 := by
    intro s hs
    simp only [slots, initialStorage, initialValidatorSet, List.map_map, List.mem_map] at hs
    obtain ⟨v, -, rfl⟩ := hs
    rfl
  have hw : ∀ id w, (initialStorage env config msg.validatorAllowlist msg.validators).windows.lookup
      id = some w → w.state ≠ .unbonding := by
    intro id w hl
    obtain ⟨-, rfl⟩ := (lookup_initial env config msg.validatorAllowlist msg.validators id w).1 hl
    simp [Windows.open]
  refine ⟨ha ▸ hnd, ?_, hlen, fun id w hl hf => absurd hf (hw id w hl), ?_, ?_, ?_⟩
  · intro a hmem
    rw [ha] at hmem
    obtain ⟨w, hw, rfl⟩ := List.mem_map.1 hmem
    exact hall w hw
  · intro s hs
    rw [hz s hs]
    exact (Keymap.total_eq_zero fun id w hl => Queue.holds_of_state (hw id w hl)).symm
  · intro s hs
    rw [hz s hs]
    exact Nat.zero_le _
  · show config.params.maxUnbondEntriesPerValidator < _
    rw [hp]
    unfold validateParams at hpar
    simp only [guard_eq_ok] at hpar
    omega

/-- **The slots are accounted for in every reachable storage.** -/
theorem Reachable.slotted (h : Reachable st) : Slotted st := by
  refine (h.inv (P := fun st => Booked st ∧ Slotted st) ?_ ?_).2
  · rintro st ⟨deps, env, info, msg, resp, hi⟩
    obtain ⟨config, hc, hp, -, -, -, rfl⟩ := instantiate_ok hi
    exact ⟨booked_initial _ _ _ _, slotted_initial env hc hp⟩
  · rintro st e st' ⟨hB, hS⟩ hs
    exact ⟨(step_refines hB hs).1, step_slotted hS hB hs⟩

/-! ## How many windows are in flight -/

/-- There are never more than twenty validators with six slots each to draw on. -/
theorem Slotted.inFlightCount_le (h : Slotted st) : st.queue.inFlightCount ≤ 120 := by
  have hle : st.queue.inFlightCount ≤ ((addresses st.validators).map st.queue.uses).sum := by
    refine Queue.inFlightCount_le fun id w hw hs => ?_
    obtain ⟨-, hne, hin⟩ := h.listed id w hw hs
    obtain ⟨a, ha⟩ := List.exists_mem_of_ne_nil _ hne
    exact ⟨a, hin a ha, ha⟩
  have hcap : ∀ n ∈ (addresses st.validators).map st.queue.uses, n ≤ 6 := by
    intro n hn
    obtain ⟨a, ha, rfl⟩ := List.mem_map.1 hn
    obtain ⟨s, hs, rfl⟩ := List.mem_map.1 ha
    rw [← h.counted s hs]
    have := h.ceiling s hs
    have := h.bounded
    simp only [chainMaxUnbondEntries] at this
    omega
  have hlen : (addresses st.validators).length ≤ maxValidators := by
    refine le_trans ?_ h.few
    exact (h.distinct.subperm fun a ha => h.allowed a ha).length_le
  have hsum : _ ≤ ((addresses st.validators).map st.queue.uses).length * 6 :=
    List.sum_le_card_nsmul _ 6 hcap
  simp only [List.length_map, maxValidators] at hsum hlen
  omega

/-- **A claim marks every due window**: its limit is never reached. -/
theorem Marking.all_due {now : ℕ} {balance : Uint128} {rets : List (ℕ × Uint128)} (h : Slotted st)
    (hB : Booked st) (hM : Marking now u32Max balance st st' rets) :
    rets.map (·.1) = st.activeWindows.filter fun id => dueIn st.windows now id := by
  have hlen : (st.activeWindows.filter fun id => dueIn st.windows now id).length ≤
      st.queue.inFlightCount := by
    have hone : ((st.activeWindows.filter fun id => dueIn st.windows now id).map fun id =>
        (st.windows.lookup id).elim 0 fun w => if w.state = .unbonding then 1 else 0) =
        (st.activeWindows.filter fun id => dueIn st.windows now id).map fun _ => 1 :=
      List.map_congr_left fun id hid => by
        obtain ⟨w, hw, hs, -⟩ := dueIn_iff.1 (List.mem_filter.1 hid).2
        simp [hw, hs]
    have hle := Keymap.sum_le_total (f := fun (_ : ℕ) (w : UnbondWindow) =>
      if w.state = .unbonding then 1 else 0) (m := st.windows)
      (hB.shape.nodup.sublist (List.filter_sublist (p := fun id => dueIn st.windows now id)))
    change ((st.activeWindows.filter fun id => dueIn st.windows now id).map fun id =>
      (st.windows.lookup id).elim 0 fun w => if w.state = .unbonding then 1 else 0).sum ≤ _ at hle
    rw [hone, List.map_const', List.sum_replicate_nat, Nat.mul_one] at hle
    exact hle
  have := h.inFlightCount_le
  rw [hM.due, List.take_of_length_le]
  simp only [u32Max]
  omega

/-- After a claim has marked, a window in flight is one that is not due. -/
theorem Marking.in_flight_iff {now : ℕ} {balance : Uint128} {rets : List (ℕ × Uint128)}
    (h : Slotted st) (hB : Booked st) (hM : Marking now u32Max balance st st' rets) {id : ℕ}
    {w : UnbondWindow} : (st'.windows.lookup id = some w ∧ w.state = .unbonding) ↔
      (st.windows.lookup id = some w ∧ w.state = .unbonding ∧ now < w.maturesAt) := by
  by_cases hid : id ∈ rets.map (·.1)
  · obtain ⟨ret, hret, rfl⟩ := List.mem_map.1 hid
    obtain ⟨v, hv, -, hdue, -, hv'⟩ := hM.lookup_of_mem hB hret
    constructor
    · rintro ⟨hl, hs⟩
      rw [hv'] at hl
      cases hl
      simp [UnbondWindow.returned] at hs
    · rintro ⟨hl, -, hlt⟩
      rw [hv] at hl
      cases hl
      omega
  · rw [hM.lookup_of_not_mem hid]
    refine and_congr_right fun hl => ⟨fun hs => ⟨hs, ?_⟩, fun hs => hs.1⟩
    by_contra hlt
    refine hid ?_
    rw [hM.all_due h hB]
    refine List.mem_filter.2 ⟨(hB.shape.active id).2 ⟨w, hl, .inl hs⟩, ?_⟩
    exact dueIn_iff.2 ⟨w, hl, hs, by omega⟩

end LstCore
