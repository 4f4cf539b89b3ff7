import LstCore.Proof.Assets

/-!
# The cache and the chain, in step

* `run_withStore`: what messages do does not depend on the storage, but for the denom and the token.
* `Agrees`: the entries of a set are as the chain has them.
* `Agrees.deposit`, `Agrees.closing`: what a call books on the set is what its messages do.
-/

namespace LstCore

open Lib

variable {deps : Deps} {env : Env} {info : MessageInfo} {st st' : Storage}
  {set set' : List ValidatorEntry} {messages : List CosmosMsg}

namespace Chain

variable {c c' : Chain} {s : Storage} {view : Deps}

/-! ## Messages and the storage -/

/-- The chain with another storage of the contract. -/
def withStore (c : Chain) (s : Storage) : Chain := { c with store := s }

theorem collect_withStore (v : String) :
    (c.withStore s).collect v = (c.collect v).map (·.withStore s) := by
  unfold collect withStore
  cases c.stakes.lookup v with
  | none => rfl
  | some x => cases h : c.balance.add? x.rewards <;> simp [h]

theorem spend_withStore (a : Uint128) :
    (c.withStore s).spend a = (c.spend a).map (·.withStore s) := by
  unfold spend withStore
  cases c.balance.sub? a <;> simp

theorem grow_withStore (v : String) (a : Uint128) :
    (c.withStore s).grow v a = (c.grow v a).map (·.withStore s) := by
  unfold grow withStore
  cases h : ((c.stakes.lookup v).getD ⟨0, 0⟩).amount.add? a <;> simp [h]

theorem shrink_withStore (v : String) (a : Uint128) :
    (c.withStore s).shrink v a = (c.shrink v a).map (·.withStore s) := by
  unfold shrink withStore
  cases c.stakes.lookup v with
  | none => simp
  | some x => cases h : x.amount.sub? a <;> simp [h]

theorem runToken_withStore (m : TokenExecuteMsg) :
    (c.withStore s).runToken m = (c.runToken m).map (·.withStore s) := by
  cases m with
  | mint recipient amount memo =>
    simp only [runToken, give, withStore, sharesOf]
    cases c.supply.add? amount with
    | none => rfl
    | some x =>
      cases ((c.shares.lookup recipient).getD 0).add? amount <;> simp
  | burn amount memo =>
    simp only [runToken, take, withStore, sharesOf]
    cases c.supply.sub? amount with
    | none => rfl
    | some x =>
      cases ((c.shares.lookup c.self.address).getD 0).sub? amount <;> simp
  | registerReceive h => rfl

/-- **A message does not depend on the storage**, but for the denom and the token. -/
theorem run_withStore (hs : s.config = c.store.config) (m : CosmosMsg) :
    (c.withStore s).run m = (c.run m).map (·.withStore s) := by
  have hst : ∀ coin, (c.withStore s).staked coin = c.staked coin := fun coin => by
    simp only [staked, withStore, hs]
  cases m with
  | withdrawDelegatorReward v =>
    simp only [run]
    show (c.stakes.lookup v).bind _ = _
    cases c.stakes.lookup v with
    | none => rfl
    | some x => exact collect_withStore v
  | delegate v coin =>
    simp only [run, hst]
    cases c.staked coin with
    | none => rfl
    | some a =>
      simp only [Option.bind_eq_bind, Option.bind_some, collect_withStore, Option.bind_map,
        Option.map_bind, Function.comp_def, spend_withStore, grow_withStore]
  | undelegate v coin =>
    simp only [run, hst]
    cases c.staked coin with
    | none => rfl
    | some a =>
      simp only [Option.bind_eq_bind, Option.bind_some, collect_withStore, Option.bind_map,
        Option.map_bind, Function.comp_def, shrink_withStore]
  | redelegate src dst coin =>
    simp only [run, hst]
    split
    · rfl
    · cases c.staked coin with
      | none => rfl
      | some a =>
        simp only [Option.bind_eq_bind, Option.bind_some, collect_withStore, Option.bind_map,
          Option.map_bind, Function.comp_def, shrink_withStore, grow_withStore]
  | bankSend dest coins =>
    simp only [run]
    show (Word.ofNat? 128 (amountIn s.config.bondedDenom coins)).bind _ = _
    rw [hs]
    cases Word.ofNat? 128 (amountIn c.store.config.bondedDenom coins) with
    | none => rfl
    | some a =>
      simp only [Option.bind_eq_bind, Option.bind_some, spend_withStore, Option.bind_map,
        Option.map_bind, Function.comp_def, Option.pure_def, Option.map_some]
      congr 1
      funext x
      show some (if dest = c.self.address then _ else _) = _
      split <;> rfl
  | token token msg =>
    simp only [run]
    show (if s.config.token = some token then _ else _) = _
    rw [hs]
    split
    · exact runToken_withStore msg
    · rfl

/-- **Messages in two parts**, the second of which runs with another storage. -/
theorem runs_append {s' : Storage} {l : List CosmosMsg} (hs : s'.config = s.config)
    (h : (messages ++ l).foldlM run (c.withStore s') = some c') :
    ∃ mid, messages.foldlM run (c.withStore s) = some mid ∧
      l.foldlM run (mid.withStore s') = some c' := by
  rw [List.foldlM_append, Option.bind_eq_bind, Option.bind_eq_some_iff] at h
  obtain ⟨mid', hm, hl⟩ := h
  -- the first part does the same with either storage
  have hsame : ∀ (messages : List CosmosMsg) (c : Chain), c.store.config = s'.config →
      messages.foldlM run (c.withStore s') = (messages.foldlM run c).map (·.withStore s') := by
    intro messages
    induction messages with
    | nil => exact fun _ _ => rfl
    | cons m messages ih =>
      intro c hc
      rw [List.foldlM_cons, List.foldlM_cons, run_withStore hc.symm]
      simp only [Option.bind_eq_bind, Option.bind_map, Option.map_bind, Function.comp_def]
      cases hm : c.run m with
      | none => rfl
      | some d => exact ih d (by rw [(run_ok hm).store, hc])
  rw [show c.withStore s' = (c.withStore s).withStore s' from rfl,
    hsame messages (c.withStore s) hs.symm, Option.map_eq_some_iff] at hm
  obtain ⟨mid, hm, rfl⟩ := hm
  exact ⟨mid, hm, hl⟩

/-! ## The cache -/

/-- The entries of a set are as the chain has them. -/
def Agrees (set : List ValidatorEntry) (c : Chain) : Prop := ∀ v ∈ set, c.read v = v

/-- No delegation has accrued rewards. -/
def Unrewarded (c : Chain) : Prop := ∀ v, (c.stakeOf v).rewards = 0

theorem agrees_read (set : List ValidatorEntry) : Agrees (set.map c.read) c := by
  intro v hv
  obtain ⟨u, -, rfl⟩ := List.mem_map.1 hv
  rfl

theorem Agrees.congr (h : Agrees set c) (he : ∀ v, c'.stakeOf v = c.stakeOf v) : Agrees set c' := by
  intro v hv
  have := h v hv
  unfold read at this ⊢
  rwa [he]

/-- A message changes no delegation but those it pays the rewards of. -/
theorem Ran.off {m : CosmosMsg} {v : String} (h : Ran c m c') (hv : v ∉ m.touched) :
    c'.stakeOf v = c.stakeOf v := by
  have hz : m.into v = 0 ∧ m.outOf v = 0 := by
    cases m with
    | withdrawDelegatorReward | bankSend | token => exact ⟨rfl, rfl⟩
    | delegate u coin =>
      have hne : u ≠ v := fun he => hv (by simp [he, CosmosMsg.touched])
      exact ⟨if_neg hne, rfl⟩
    | undelegate u coin =>
      have hne : u ≠ v := fun he => hv (by simp [he, CosmosMsg.touched])
      exact ⟨rfl, if_neg hne⟩
    | redelegate src dst coin =>
      have hs : src ≠ v := fun he => hv (by simp [he, CosmosMsg.touched])
      have hd : dst ≠ v := fun he => hv (by simp [he, CosmosMsg.touched])
      exact ⟨if_neg hd, if_neg hs⟩
  have ha := h.amount v
  have hr := h.rewards v
  rw [hz.1, hz.2] at ha
  rw [if_neg hv] at hr
  show (⟨_, _⟩ : Stake) = ⟨_, _⟩
  rw [Stake.mk.injEq]
  exact ⟨Word.ext ha, hr⟩

/-- One entry changed as its delegation is. -/
theorem agrees_set {i : ℕ} {v x : ValidatorEntry} (h : Agrees set c)
    (hnd : (set.map (·.address)).Nodup) (hv : set[i]? = some v) (hx : c'.read x = x)
    (hoff : ∀ u, u ≠ v.address → c'.stakeOf u = c.stakeOf u) : Agrees (set.set i x) c' := by
  intro u hu
  obtain ⟨j, hj⟩ := List.getElem?_of_mem hu
  rw [List.getElem?_set] at hj
  split at hj
  · split at hj
    · rw [← Option.some.inj hj, hx]
    · cases hj
  · rename_i hij
    -- another entry has another address
    have hne : u.address ≠ v.address := by
      intro he
      obtain ⟨hlt, -⟩ := List.getElem?_eq_some_iff.1 hv
      refine hij ((List.getElem?_inj (by simpa using hlt) hnd).1 ?_)
      rw [List.getElem?_map, List.getElem?_map, hv, hj, Option.map_some, Option.map_some, he]
    have := h u (List.mem_of_getElem? hj)
    unfold read at this ⊢
    rwa [hoff _ hne]

theorem Ran.unrewarded {m : CosmosMsg} (h : Ran c m c') (hz : Unrewarded c) : Unrewarded c' :=
  fun v => by rw [h.rewards v, hz v, ite_self]

/-- An entry that agrees, agrees again with the new amount of its delegation. -/
theorem read_bonded {v : ValidatorEntry} {b : Uint128} {entries : ℕ} (hv : c.read v = v) (hz : Unrewarded c)
    (hz' : Unrewarded c') (hb : (c'.stakeOf v.address).amount = b) :
    c'.read { v with bonded := b, activeUnbondEntries := entries } =
      { v with bonded := b, activeUnbondEntries := entries } := by
  have hpending : v.pendingRewards = 0 := by rw [← hv]; exact hz _
  unfold read
  rw [ValidatorEntry.mk.injEq]
  exact ⟨rfl, rfl, rfl, hb, (hz' _).trans hpending.symm, rfl⟩

/-- **A deposit, booked and delegated.** -/
theorem Agrees.deposit {deposit shares : Uint128}
    (d : Deposited (c.deps view) c.env info c.store deposit shares) (hz : Unrewarded c)
    (hnd : (c.store.validators.map (·.address)).Nodup)
    (hr : d.messages.foldlM run (c.withStore s) = some c') : Agrees d.set c' ∧ Unrewarded c' := by
  obtain ⟨i, v, b, -, hv, hb, hset, hval⟩ := placeStake_eq_ok.1 d.placed
  rw [refreshed_set d.refreshed] at hv hset
  unfold Deposited.messages at hr
  simp only [List.foldlM_cons, List.foldlM_nil, Option.bind_eq_bind, Option.bind_eq_some_iff,
    Option.pure_def, Option.some.injEq] at hr
  obtain ⟨c₁, hmint, c₂, hdel, rfl⟩ := hr
  have hr₁ := run_ok hmint
  have hr₂ := run_ok hdel
  have hsame : ∀ u, c₁.stakeOf u = c.stakeOf u := fun u => hr₁.off (by simp [CosmosMsg.touched])
  have hz₁ : Unrewarded c₁ := hr₁.unrewarded hz
  refine ⟨?_, hr₂.unrewarded hz₁⟩
  rw [hset]
  refine agrees_set ((agrees_read _).congr hsame) ?_ hv ?_ fun u hu => hr₂.off ?_
  · rw [List.map_map]
    exact hnd
  · have hve := agrees_read (c := c) _ v (List.mem_of_getElem? hv)
    have ha := hr₂.amount v.address
    simp only [delegateMsg, hval, CosmosMsg.outOf, CosmosMsg.into, if_true, Nat.add_zero, hsame] at ha
    have hbv : v.bonded = (c.stakeOf v.address).amount := by rw [← hve]; rfl
    exact read_bonded hve hz (hr₂.unrewarded hz₁) (Word.ext (by rw [ha, hb, hbv]))
  · simpa [delegateMsg, CosmosMsg.touched, hval] using hu

/-- **The legs of a closing, issued and run.** -/
theorem Agrees.legs {denom : String} : ∀ {legs : List Validators.UnbondLeg} {acc acc' : LegAcc},
    legs.foldlM (issueLeg denom) acc = .ok acc' → (acc.set.map (·.address)).Nodup →
    ∃ new, acc'.messages = acc.messages ++ new ∧ ∀ c c' : Chain, Agrees acc.set c → Unrewarded c →
      new.foldlM run c = some c' → Agrees acc'.set c' ∧ Unrewarded c' := by
  intro legs
  induction legs with
  | nil =>
    intro acc acc' h _
    simp only [List.foldlM_nil, pure_eq_ok] at h
    subst h
    refine ⟨[], (List.append_nil _).symm, fun c c' ha hz hr => ?_⟩
    simp only [List.foldlM_nil, Option.pure_def, Option.some.injEq] at hr
    exact hr ▸ ⟨ha, hz⟩
  | cons leg legs ih =>
    intro acc acc' h hnd
    rw [List.foldlM_cons, bind_eq_ok] at h
    obtain ⟨mid, hmid, h⟩ := h
    obtain ⟨v, hv, rfl⟩ := issueLeg_eq_ok.1 hmid
    obtain ⟨new, hm, hrest⟩ := ih h (by rw [map_set hv (by rfl)]; exact hnd)
    refine ⟨.undelegate v.address ⟨denom, leg.amount⟩ :: new, by simp [hm], fun c c' ha hz hr => ?_⟩
    rw [List.foldlM_cons, Option.bind_eq_bind, Option.bind_eq_some_iff] at hr
    obtain ⟨c₁, h₁, hr⟩ := hr
    have hran := run_ok h₁
    refine hrest c₁ c' (agrees_set ha hnd hv ?_ fun u hu => hran.off ?_) (hran.unrewarded hz) hr
    · have hve := ha v (List.mem_of_getElem? hv)
      have hamt := hran.amount v.address
      simp only [CosmosMsg.outOf, CosmosMsg.into, if_true, Nat.add_zero] at hamt
      have hbv : v.bonded = (c.stakeOf v.address).amount := by rw [← hve]; rfl
      refine read_bonded hve hz (hran.unrewarded hz) (Word.ext ?_)
      rw [Word.val_satSub, hbv]
      omega
    · simpa [CosmosMsg.touched] using hu

/-- **A closing, booked and run.** -/
theorem Agrees.closing {w : UnbondWindow} {vs : List ValidatorEntry} {ts : TotalsCache}
    {used : List String} (h : Undelegated st w vs ts used messages) (ha : Agrees st.validators c)
    (hz : Unrewarded c) (hnd : (st.validators.map (·.address)).Nodup)
    (hr : messages.foldlM run c = some c') : Agrees vs c' := by
  cases h with
  | nothing =>
    simp only [List.foldlM_nil, Option.pure_def, Option.some.injEq] at hr
    exact hr ▸ ha
  | issued hz' hplan hissue hou =>
    obtain ⟨new, hm, hrest⟩ := Agrees.legs hissue hnd
    rw [hm, List.nil_append] at hr
    exact (hrest c c' ha hz hr).1

end Chain

end LstCore
