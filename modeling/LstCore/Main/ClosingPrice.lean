import LstCore.Proof.InStep
import LstCore.Proof.Mirror

/-!
# The price when a window closes and when claims are paid

A closing takes as much out of the stake as out of what the open window is owed, and a claim as
much out of the balance as out of what the matured windows are. So where no rewards wait to be
paid, no window is due and the cache is as the chain, neither moves the assets of the pool or its
supply, nor what the cache says of them (`closing_price_neutral`).
-/

namespace LstCore

open Lib

namespace Chain

variable {c c' mid : Chain} {view : Deps} {info : MessageInfo} {store : Storage}

/-! ## The cached pool -/

/-- The assets of the pool as the cache has them. -/
def cachedAssets (c : Chain) : ℕ :=
  c.store.totals.totalBonded.val + c.store.totals.pendingRewards.val + c.balance.val -
    c.store.reserved

/-- They are those of the contract's own pool. -/
theorem pool_assets {pool : PoolTotals} {a : Uint128}
    (hp : poolTotals (c.deps view) c.env c.store 0 = .ok pool) (ha : pool.assets = .ok a) :
    a.val = c.cachedAssets ∧ pool.supply = c.store.totals.totalSupply := by
  unfold poolTotals at hp
  simp only [bind_eq_ok, liftStd_eq_ok, TotalsCache.owedBacked, add_eq_ok, pure_eq_ok, deps, env,
    and_self, if_true, Except.ok.injEq] at hp
  obtain ⟨balance, rfl, ob, hob, rfl⟩ := hp
  rw [assets_eq_ok] at ha
  refine ⟨ha.2.trans ?_, rfl⟩
  simp only [PoolTotals.net, Word.val_satSub, Word.val_zero, Nat.sub_zero, hob]
  rfl

/-- A cache that is as the chain has the assets of the chain. -/
theorem Agrees.cached_eq (h : Agrees c.store.validators c) (hM : Mirrored c.store) :
    c.cachedAssets = c.assets := by
  have hset : c.store.validators.map c.read = c.store.validators := by
    conv_rhs => rw [← List.map_id c.store.validators]
    exact List.map_congr_left h
  unfold cachedAssets assets backing
  rw [hset, hM.bonded, hM.pending]

/-! ## Closing and claiming -/

/-- From `c` to `c'` neither the assets of the pool nor its supply moves, on the chain and in the
cache. -/
structure SamePrice (c c' : Chain) : Prop where
  assets : c'.assets = c.assets
  cachedAssets : c'.cachedAssets = c.cachedAssets
  supply : c'.supply = c.supply
  cachedSupply : c'.store.totals.totalSupply = c.store.totals.totalSupply

theorem SamePrice.refl (c : Chain) : SamePrice c c := ⟨rfl, rfl, rfl, rfl⟩

/-- What is needed of the chain between the parts of a call. -/
structure Sound (c : Chain) : Prop where
  booked : Booked c.store
  slotted : Slotted c.store
  mirrored : Mirrored c.store
  housed : Housed c
  agrees : Agrees c.store.validators c

theorem Sound.nodup (h : Sound c) : (c.store.validators.map (·.address)).Nodup := by
  rw [← addresses_eq]
  exact h.slotted.distinct

theorem Sound.assets_eq (h : Sound c) : c.assets = c.worth - c.store.reserved := by
  rw [assets, h.housed.backing_eq h.nodup]

/-- **What leaves the contract leaves what it owes**, so the price is the same. -/
theorem Sound.samePrice {x : ℕ} (h : Sound c) (h' : Sound c') (hworth : c'.worth + x = c.worth)
    (howed : c'.store.reserved + x = c.store.reserved) (hs : c'.supply = c.supply)
    (hs' : c'.store.totals.totalSupply = c.store.totals.totalSupply) : SamePrice c c' := by
  have hassets : c'.assets = c.assets := by
    rw [h.assets_eq, h'.assets_eq]
    omega
  refine ⟨hassets, ?_, hs, hs'⟩
  rw [h.agrees.cached_eq h.mirrored, h'.agrees.cached_eq h'.mirrored, hassets]

/-- **A closing leaves the price alone.** -/
theorem Sound.closing {closing : Closing} {w : UnbondWindow} (h : Sound c) (hz : Unrewarded c)
    (hw : c.store.windows.lookup c.store.openWindow = some w) (hopen : w.state = .open)
    (hdue : w.closesAt ≤ c.now) (hc : closeOpenWindow c.env c.store = .ok (store, closing))
    (hr : closing.messages.foldlM run (c.withStore store) = some c') : SamePrice c c' := by
  have hran := runs_ok hr
  have hstore : c'.store = store := hran.store
  obtain ⟨used, hund, -⟩ := closeOpenWindow_ok hw hopen hdue hc
  have haddr := (Unmoved.closing hw hopen hdue hc).column fixed_address
  obtain ⟨hsup, hmint, hburn⟩ := closing_supply hw hopen hdue hc
  have hwithin : Within store.validators closing.messages := hund.within
  have h' : Sound c' := {
    booked := hstore ▸ (h.booked.closing hw hopen hdue hc).1
    slotted := hstore ▸ h.slotted.closing h.booked hw hopen hdue hc
    mirrored := hstore ▸ h.mirrored.closing h.slotted hw hopen hdue hc
    housed := h.housed.runs (fun a ha => haddr ▸ ha) hwithin hr
    agrees := hstore ▸ Agrees.closing (c := c.withStore store) hund h.agrees hz h.nodup hr }
  have hs : c'.supply.val + burnedBy closing.messages = c.supply.val + mintedBy closing.messages :=
    hran.supply
  rw [hmint, hburn] at hs
  exact h.samePrice h' hran.worth
    (hstore ▸ closing_reserved h.booked hw hopen hdue hc _ _) (Word.ext hs) (hstore ▸ hsup)

theorem Sound.overdue {closing : List CosmosMsg} (h : Sound c) (hz : Unrewarded c)
    (hc : closeWindowIfOverdue c.env c.store = .ok (store, closing))
    (hr : closing.foldlM run (c.withStore store) = some c') : SamePrice c c' := by
  rcases closeWindowIfOverdue_ok hc with ⟨rfl, rfl⟩ | ⟨w, closing, hw, hopen, hdue, hclose, rfl⟩
  · simp only [List.foldlM_nil, Option.pure_def, Option.some.injEq] at hr
    exact hr ▸ .refl c
  · exact h.closing hz hw hopen hdue hclose hr

/-- No window is due to be marked matured. -/
def NoneDue (c : Chain) : Prop :=
  ∀ id w, c.store.windows.lookup id = some w → Windows.isMature w c.now = false

theorem Reaches.sound (h : c.Reaches) (ha : Agrees c.store.validators c) : Sound c :=
  ⟨h.reachable.booked, h.reachable.slotted, h.reachable.mirrored, h.housed, ha⟩

/-- **A claim leaves the price alone.** -/
theorem Sound.claiming {ids : Option (List ℕ)} {resp : Response} (h : Sound c) (hdue : NoneDue c)
    (hne : info.sender ≠ c.self.address) (hR' : c'.Reaches)
    (he : executeClaimMatured (c.deps view) c.env info ids c.store = .ok (store, resp))
    (hr : resp.messages.foldlM run (c.withStore store) = some c') : SamePrice c c' := by
  obtain ⟨balance, rets, st₁, paid, hist, -, hM, -, hP, -, hmsgs⟩ := executeClaimMatured_ok h.booked he
  have hran := runs_ok hr
  have hstore : c'.store = store := hran.store
  -- nothing is due, so nothing is marked
  have hnil : rets = [] := by
    have hfilter : c.store.activeWindows.filter (fun id => dueIn c.store.windows c.now id) = [] := by
      rw [List.filter_eq_nil_iff]
      intro id _
      unfold dueIn
      cases hw : c.store.windows.lookup id with
      | none => simp
      | some w => simpa using hdue id w hw
    have hids := hM.due
    rw [show c.env.time = c.now from rfl, hfilter, List.take_nil] at hids
    exact List.map_eq_nil_iff.1 hids
  subst hnil
  have hmatured := hM.owedMatured
  simp only [List.map_nil, List.sum_nil, Nat.add_zero] at hmatured
  have hpaid := hP.owed_left
  have hcfg : st₁.config = c.store.config := by rw [hM.frame]
  have hopen : store.totals.scrtOwedOpen = c.store.totals.scrtOwedOpen := by rw [hP.frame, hM.frame]
  have hset : store.validators = c.store.validators := by rw [hP.frame, hM.frame]; rfl
  have hsupply : store.totals.totalSupply = c.store.totals.totalSupply := by rw [hP.frame, hM.frame]
  rw [hmsgs] at hran
  have hleaving : leavingBy c.self.address c.store.config.bondedDenom
      [.bankSend info.sender [⟨st₁.config.bondedDenom, paid⟩]] = paid.val := by
    simp [CosmosMsg.leaving, hne, hcfg, amountIn]
  have hworth : c'.worth + leavingBy c.self.address store.config.bondedDenom
      [.bankSend info.sender [⟨st₁.config.bondedDenom, paid⟩]] = c.worth := hran.worth
  have hcfg' : store.config = c.store.config := by rw [hP.frame, hM.frame]
  rw [hcfg', hleaving] at hworth
  have hstake : ∀ v, c'.stakeOf v = c.stakeOf v := by
    rw [hmsgs, List.foldlM_cons, Option.bind_eq_bind, Option.bind_eq_some_iff] at hr
    obtain ⟨c₁, hm, hr⟩ := hr
    simp only [List.foldlM_nil, Option.pure_def, Option.some.injEq] at hr
    subst hr
    exact fun v => (run_ok hm).off (by simp [CosmosMsg.touched])
  refine h.samePrice (hR'.sound ?_) hworth ?_ (Word.ext hran.supply) (hstore ▸ hsupply)
  · rw [hstore, hset]
    exact h.agrees.congr hstake
  · rw [hstore, Storage.reserved, Storage.reserved, hopen]
    omega

/-! ## Closings that ride along -/

/-- What a call finds is sound, with what it brings. -/
theorem Sound.entered {e : ChainEvent} {msg : ExecuteMsg} (h : Sound c)
    (hen : Entered c e mid view info msg) : Sound mid where
  booked := hen.store_eq ▸ h.booked
  slotted := hen.store_eq ▸ h.slotted
  mirrored := hen.store_eq ▸ h.mirrored
  housed v hv := by
    rw [hen.stakes_eq] at hv
    rw [hen.store_eq]
    exact h.housed v hv
  agrees := by
    rw [hen.store_eq]
    exact h.agrees.congr (congrFun (stakeOf_congr hen.stakes_eq).1)

/-- The chain once the own messages of a deposit or a request have run, before those of the window
that it closes. -/
def beforeClose (c : Chain) (view : Deps) (info : MessageInfo) : ExecuteMsg → Option Chain
  | .deposit =>
    match acceptDeposit (c.deps view) c.env info c.store with
    | .ok (store, _, _, messages) => messages.foldlM run (c.withStore store)
    | .error _ => none
  | .receive _ fromAddr amount hook =>
    match requestWithdrawal (c.deps view) c.env info fromAddr amount hook c.store with
    | .ok (store, _, _, token) => [.token token (.burn amount none)].foldlM run (c.withStore store)
    | .error _ => none
  | _ => none

theorem Sound.deposit {resp : Response} (h : Sound c) (hz : Unrewarded c)
    (he : executeDeposit (c.deps view) c.env info c.store = .ok (store, resp))
    (hr : resp.messages.foldlM run (c.withStore store) = some c') :
    ∃ mid, c.beforeClose view info .deposit = some mid ∧ SamePrice mid c' := by
  obtain ⟨st₁, deposit, shares, messages, closing, ha, hc, hm⟩ := executeDeposit_ok he
  rw [hm] at hr
  obtain ⟨mid, hmid, hrest⟩ := runs_append (s := st₁) (overdue_settings hc).config hr
  have hran := runs_ok hmid
  refine ⟨mid, by unfold beforeClose; dsimp only; rw [ha]; exact hmid, ?_⟩
  obtain ⟨d, rfl, rfl⟩ := acceptDeposit_ok ha
  obtain ⟨hagrees, hzero⟩ := Agrees.deposit d hz h.nodup hmid
  have haddr := (ClosesFrom.deposit ha).unmoved.column fixed_address
  have hstore : mid.store = d.next := hran.store
  have henv : mid.env = c.env := by rw [env, env, hran.now, hran.self]; rfl
  refine Sound.overdue (c := mid) ?_ hzero (by rw [henv, hstore]; exact hc) hrest
  exact {
    booked := hstore ▸ h.booked.closesFrom (.deposit ha)
    slotted := hstore ▸ h.slotted.closesFrom (.deposit ha)
    mirrored := hstore ▸ acceptDeposit_mirrored ha
    housed := h.housed.runs (fun a ha => haddr ▸ ha) (deposited_within d) hmid
    agrees := hstore ▸ hagrees }

theorem Sound.receive {sender fromAddr : Addr} {amount : Uint128} {hook : Option Binary}
    {resp : Response} (h : Sound c) (hz : Unrewarded c)
    (he : executeReceive (c.deps view) c.env info fromAddr amount hook c.store = .ok (store, resp))
    (hr : resp.messages.foldlM run (c.withStore store) = some c') :
    ∃ mid, c.beforeClose view info (.receive sender fromAddr amount hook) = some mid ∧
      SamePrice mid c' := by
  obtain ⟨st₁, w, owed, token, closing, ha, hc, hm⟩ := executeReceive_ok he
  rw [hm, ← List.singleton_append] at hr
  obtain ⟨mid, hmid, hrest⟩ := runs_append (s := st₁) (overdue_settings hc).config hr
  have hran := runs_ok hmid
  refine ⟨mid, by unfold beforeClose; dsimp only; rw [ha]; exact hmid, ?_⟩
  have haddr := (ClosesFrom.receive ha).unmoved.column fixed_address
  have hstore : mid.store = st₁ := hran.store
  have henv : mid.env = c.env := by rw [env, env, hran.now, hran.self]; rfl
  have hstake : ∀ v, mid.stakeOf v = c.stakeOf v := by
    simp only [List.foldlM_cons, List.foldlM_nil, Option.bind_eq_bind, Option.bind_eq_some_iff,
      Option.pure_def, Option.some.injEq] at hmid
    obtain ⟨c₁, hm, rfl⟩ := hmid
    exact fun v => (run_ok hm).off (by simp [CosmosMsg.touched])
  have hset : st₁.validators = c.store.validators.map c.read := by
    obtain ⟨st₂, -, -, -, -, hprice, hj⟩ := requestWithdrawal_ok ha
    obtain ⟨pool, hpool, -⟩ := priceWithdrawal_eq_ok.1 hprice
    obtain ⟨-, -, _, _, _, -, -, -, hst⟩ := refreshTotals_eq_ok.1 (pricingPool_eq_ok.1 hpool).1
    obtain ⟨u, oo, -, -, -, hst₁⟩ := joinWindow_ok hj
    rw [hst₁, hst, ← readEntry_eq view]
    rfl
  refine Sound.overdue (c := mid) ?_ (fun v => by rw [hstake v, hz v])
    (by rw [henv, hstore]; exact hc) hrest
  exact {
    booked := hstore ▸ h.booked.closesFrom (.receive ha)
    slotted := hstore ▸ h.slotted.closesFrom (.receive ha)
    mirrored := hstore ▸ requestWithdrawal_mirrored ha
    housed := h.housed.runs (fun a ha => haddr ▸ ha) (within_nil.cons rfl) hmid
    agrees := by
      rw [hstore, hset]
      exact (agrees_read _).congr hstake }

/-! ## The result -/

/-- The cache is as the chain, no rewards wait to be paid, and no window is due. -/
structure Calm (c : Chain) : Prop where
  agrees : Agrees c.store.validators c
  unrewarded : Unrewarded c
  noneDue : NoneDue c

theorem fund_eq_some {b : Uint128}
    (hb : b.val = c.balance.val + amountIn c.store.config.bondedDenom info.funds) :
    c.fund info = some { c with balance := b } := by
  unfold fund
  have hlt := b.isLt
  rw [show Word.ofNat? 128 (amountIn c.store.config.bondedDenom info.funds) =
    some ⟨amountIn c.store.config.bondedDenom info.funds, by omega⟩ from
      Word.ofNat?_eq_some.2 rfl]
  simp only [Option.bind_eq_bind, Option.bind_some]
  rw [Word.add?_eq_some.2 (show b.val = _ from hb)]
  rfl

/-- **Closing and claiming are price-neutral.** Neither the chain's assets and supply nor the cache
of them is moved by an `AdvanceWindow` or a `ClaimMatured`, beyond any funds attached to it, nor by
the closing that rides along on a deposit or on a request, beyond what these do themselves. -/
theorem closing_price_neutral (hR : c.Reaches) (hcalm : Calm c) :
    (∀ view info msg answer c', (msg = .advanceWindow ∨ ∃ ids, msg = .claimMatured ids) →
      Next c (.call view info msg, answer) c' → ∃ c₁, c.fund info = some c₁ ∧ SamePrice c₁ c' ∧
        (amountIn c.store.config.bondedDenom info.funds = 0 → SamePrice c c')) ∧
    (∀ view info answer c', Next c (.call view info .deposit, answer) c' →
      ∃ c₁ mid, c.fund info = some c₁ ∧ c₁.beforeClose view info .deposit = some mid ∧
        SamePrice mid c') ∧
    ∀ view sender fromAddr amount hook answer c',
      Next c (.send view sender fromAddr amount hook, answer) c' →
      ∃ token c₁ mid, c.store.config.token = some token ∧
        c.move fromAddr c.self.address amount = some c₁ ∧
        c₁.beforeClose view ⟨token.address, []⟩ (.receive sender fromAddr amount hook) = some mid ∧
        SamePrice mid c' := by
  obtain ⟨hagrees, hzero, hdue⟩ := hcalm
  have hS := hR.sound hagrees
  -- what a transaction brings changes no delegation
  have hzero₁ : ∀ {e c₁ view info msg}, Entered c e c₁ view info msg → Unrewarded c₁ :=
    fun hen v => by rw [(stakeOf_congr hen.stakes_eq).1]; exact hzero v
  refine ⟨fun view info msg answer c' hm hn => ?_, fun view info answer c' hn => ?_,
    fun view sender fromAddr amount hook answer c' hn => ?_⟩
  · rcases step_ok hn with ⟨c₁, _, _, _, store, resp, hen, he, hr, -⟩ | ⟨-, ha⟩
    swap
    · cases ha
    have hS₁ := hS.entered hen
    have hz₁ := hzero₁ hen
    cases hen with
    | call hs hb =>
      rename_i b
      have hsame : SamePrice { c with balance := b } c' := by
        rcases hm with rfl | ⟨ids, rfl⟩
        · obtain ⟨w, closing, hw, hopen, hclose, hc, hmsgs⟩ := executeAdvanceWindow_ok he
          exact hS₁.closing hz₁ hw hopen hclose hc (hmsgs ▸ hr)
        · exact hS₁.claiming hdue (fun heq => hs (.inl heq)) (hR.next hn) he hr
      refine ⟨_, fund_eq_some hb, hsame, fun hfunds => ?_⟩
      rw [hfunds] at hb
      obtain rfl : b = c.balance := Word.ext hb
      exact hsame
  · rcases step_ok hn with ⟨c₁, _, _, _, store, resp, hen, he, hr, -⟩ | ⟨-, ha⟩
    swap
    · cases ha
    obtain ⟨mid, hmid, hsame⟩ := (hS.entered hen).deposit (hzero₁ hen) (by cases hen; exact he) hr
    cases hen with
    | call hs hb => exact ⟨_, mid, fund_eq_some hb, hmid, hsame⟩
  · rcases step_ok hn with ⟨c₁, _, _, _, store, resp, hen, he, hr, -⟩ | ⟨-, ha⟩
    swap
    · cases ha
    have hS₁ := hS.entered hen
    have hz₁ := hzero₁ hen
    cases hen with
    | send hne ht hm =>
      obtain ⟨mid, hmid, hsame⟩ := hS₁.receive hz₁ he hr
      exact ⟨_, c₁, mid, ht, hm, hmid, hsame⟩

/-- Calm can be told from sums. -/
theorem calm_of_sums (ha : ∀ v ∈ c.store.validators, c.read v = v) (hh : c.held = 0)
    (hd : (c.store.windows.total fun _ w => if Windows.isMature w c.now then 1 else 0) = 0) :
    Calm c := by
  refine ⟨ha, fun v => ?_, fun id w hw => ?_⟩
  · have hle : (c.stakeOf v).rewards.val ≤ c.held := held_le
    exact Word.eq_zero_iff.2 (by omega)
  · have hle := Keymap.le_total (f := fun _ w => if Windows.isMature w c.now then 1 else 0) hw
    rw [hd] at hle
    cases hm : Windows.isMature w c.now with
    | false => rfl
    | true => simp [hm] at hle

set_option maxRecDepth 10000 in
/-- After the seed of 10 SCRT and a deposit of 100, the window that 50 of them were asked back in
is closed. -/
theorem closing_price_neutral_advanced : ∃ c c' : Chain,
    c.store.totals.scrtOwedOpen = Uint128.new 50000000 ∧ c'.store.totals.scrtOwedOpen = 0 ∧
    SamePrice c c' := by
  have hrun : (devChain.replay [devSeed, devEnter "user" (Uint128.new 100000000) .deposit,
      devSend "user" (Uint128.new 50000000), .time (devStart + 432000)]).bind (fun s =>
        (s.1.replay [devEnter "keeper" 0 .advanceWindow]).map fun r =>
        ((s.1.store.totals.scrtOwedOpen, r.1.store.totals.scrtOwedOpen),
          decide (∀ v ∈ s.1.store.validators, s.1.read v = v), s.1.held,
          s.1.store.windows.total fun _ w => if Windows.isMature w s.1.now then 1 else 0)) =
      some ((Uint128.new 50000000, 0), true, 0, 0) := by decide +kernel
  obtain ⟨⟨c, h⟩, hc, hrun⟩ := Option.bind_eq_some_iff.1 hrun
  obtain ⟨⟨c', h'⟩, hc', hs⟩ := Option.map_eq_some_iff.1 hrun
  simp only [Prod.mk.injEq, decide_eq_true_eq] at hs
  obtain ⟨⟨hopen, hopen'⟩, hagrees, hheld, hdue⟩ := hs
  obtain ⟨answer, hn, -⟩ := replay_one hc'
  have hR : c.Reaches := ⟨devChain, h, devChain_fresh, replay_ok hc⟩
  obtain ⟨_, -, -, hsame⟩ := (closing_price_neutral hR (calm_of_sums hagrees hheld hdue)).1 _ _ _ _ _
    (.inl rfl) hn
  exact ⟨c, c', hopen, hopen', hsame rfl⟩

end Chain

end LstCore
