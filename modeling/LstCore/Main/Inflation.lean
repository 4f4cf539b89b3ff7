import LstCore.Main.NoDilution

/-!
# The seed and the inflation attack

The seed is locked, so an attacker never holds the whole supply. Whatever it deposits, and whatever
it donates to steer the price of somebody else's deposit, all of its shares are then worth no more
than what it has put in; and the other deposit is worth what it cost, short of less than one share
(`seed_defeats_inflation`).
-/

namespace LstCore

open Lib

namespace Chain

variable {c c₁ c₂ c₃ c₄ : Chain} {view : Deps} {e : ChainEvent × Option ExecuteAnswer}

/-- The pool as a bootstrap leaves it: the shares are the seed, locked, with as much behind them. -/
structure JustSeeded (c : Chain) (seed : ℕ) : Prop where
  minimum : minBootstrapSeed ≤ seed
  locked : c.own = seed
  supply : c.supply.val = seed
  assets : c.assets = seed

/-- The next event that is more than the passing of time. -/
def Then (c : Chain) (e : ChainEvent × Option ExecuteAnswer) (c' : Chain) : Prop :=
  Next c e c' ∨ ∃ now answer w, Next c (.time now, answer) w ∧ Next w e c'

/-- **The next event happens on the same pool.** -/
theorem Then.next (h : c.Then e c₁) (hR : c.Reaches) : ∃ w : Chain, w.Reaches ∧ Next w e c₁ ∧
    w.assets = c.assets ∧ w.supply = c.supply ∧ w.self = c.self ∧ ∀ u, w.sharesOf u = c.sharesOf u := by
  rcases h with hn | ⟨now, answer, w, hw, hn⟩
  · exact ⟨c, hR, hn, rfl, rfl, rfl, fun _ => rfl⟩
  · refine ⟨w, hR.next hw, hn, ?_⟩
    rcases step_ok hw with ⟨_, _, _, _, _, _, hen, -⟩ | ⟨-, ha⟩
    · cases hen
    · cases ha
      exact ⟨rfl, rfl, rfl, fun _ => rfl⟩

/-- **A deposit** is in the assets, and its shares in the supply. -/
theorem Then.deposited {info : MessageInfo} {deposit shares : Uint128} (hR : c.Reaches)
    (hsupply : c.supply ≠ 0) (hassets : c.assets ≠ 0)
    (h : c.Then (.call view info .deposit, some (.deposit deposit shares)) c₁) :
    c₁.Reaches ∧ info.sender ≠ c.self.address ∧ c₁.assets = c.assets + deposit.val ∧
      c₁.supply.val = c.supply.val + shares.val ∧
      shares.val = deposit.val * c.supply.val / c.assets ∧
      ∀ u, (c₁.sharesOf u).val = (c.sharesOf u).val + if info.sender = u then shares.val else 0 := by
  obtain ⟨w, hRw, hn, hwa, hws, hself, hshares⟩ := h.next hR
  rw [← hwa] at hassets
  rw [← hws] at hsupply
  have hsender : info.sender ≠ w.self.address := by
    rcases step_ok hn with ⟨_, _, _, _, _, _, hen, -⟩ | ⟨ha, -⟩
    · cases hen with
      | call hs hb => exact fun heq => hs (.inl heq)
    · cases ha
  obtain ⟨d, m, hans, hs, hu, -, hval⟩ := next_deposit hRw hsupply hn
  simp only [Option.some.injEq, ExecuteAnswer.deposit.injEq] at hans
  obtain ⟨rfl, rfl⟩ := hans
  obtain ⟨ha, hs⟩ := hs.deposited trivial hassets
  rw [if_neg hassets] at hval
  refine ⟨hRw.next hn, hself ▸ hsender, ?_, ?_, ?_, fun u => ?_⟩
  · rw [← hwa]
    exact ha
  · rw [← hws]
    exact hs
  · rw [← hwa, ← hws]
    exact hval
  · rw [← hshares u]
    exact hu u

/-- **A donation** is in the assets, and in nothing else. -/
theorem Then.donated {amount : Uint128} {answer : Option ExecuteAnswer} (hR : c.Reaches)
    (hpos : c.assets ≠ 0) (h : c.Then (.inflow amount, answer) c₁) :
    c₁.Reaches ∧ c₁.assets = c.assets + amount.val ∧ c₁.supply = c.supply ∧
      ∀ u, c₁.sharesOf u = c.sharesOf u := by
  obtain ⟨w, hRw, hn, hwa, hws, -, hshares⟩ := h.next hR
  have hR₁ := hRw.next hn
  rw [← hwa] at hpos ⊢
  rw [← hws]
  have hassets := hRw.assets_eq
  have hassets₁ := hR₁.assets_eq
  rcases step_ok hn with ⟨_, _, _, _, _, _, hen, -⟩ | ⟨-, ha⟩
  · cases hen
  · cases ha with
    | inflow hb =>
      rename_i b
      have hworth : worth { w with balance := b } = w.worth + amount.val := by
        show w.bonded + w.held + b.val = w.bonded + w.held + w.balance.val + amount.val
        omega
      have hres : Chain.store { w with balance := b } = w.store := rfl
      rw [hworth, hres] at hassets₁
      exact ⟨hR₁, by omega, rfl, hshares⟩

/-- Where the contract holds every share, nobody else holds one. -/
theorem sharesOf_eq_zero {u : Addr} (hR : c.Reaches) (hown : c.own = c.supply.val)
    (hu : u ≠ c.self.address) : (c.sharesOf u).val = 0 := by
  have hle := Keymap.sum_le_total (f := fun _ a => a.val) (m := c.shares) (l := [c.self.address, u])
    (List.nodup_cons.2 ⟨by simpa using Ne.symm hu, List.nodup_singleton u⟩)
  have hval : ∀ v, (c.shares.lookup v).elim 0 (fun a => a.val) = (c.sharesOf v).val := by
    intro v
    unfold sharesOf
    cases c.shares.lookup v <;> rfl
  have htotal : c.shareTotal = c.supply.val := hR.mirror.shares
  simp only [List.map_cons, List.map_nil, List.sum_cons, List.sum_nil, hval] at hle
  unfold own at hown
  unfold shareTotal at htotal
  omega

/-- **What a bootstrap leaves**, where nothing was sent to the contract before. -/
theorem bootstrap_justSeeded {addr hash : String} {answer : Option ExecuteAnswer} {info : MessageInfo}
    (hf : c.Fresh) (hz : c.balance = 0) (hn : Next c (.call view info (.bootstrap addr hash), answer) c₁) :
    ∃ seed : Uint128, answer = some (.bootstrap seed seed) ∧ c₁.JustSeeded seed.val := by
  have hR : c.Reaches := ⟨c, [], hf, .nil⟩
  have hR₁ := hR.next hn
  obtain ⟨seed, hans, hmin, hown⟩ := seed_le hn
  refine ⟨seed, hans, ?_⟩
  have hle : c₁.own ≤ c₁.supply.val := hR₁.mirror.shares ▸ sharesOf_le
  have hassets := hR₁.assets_eq
  obtain ⟨hstakes, hsup, -, _, _, _, _, hi⟩ := hf
  obtain ⟨config, -, -, -, -, -, hst⟩ := instantiate_ok hi
  rcases step_ok hn with ⟨_, _, _, _, store, resp, hen, he, hr, rfl⟩ | ⟨-, ha⟩
  · cases hen with
    | call hs hb =>
      rename_i b
      obtain ⟨s, hd, -, hm⟩ := executeBootstrap_answer he
      obtain ⟨s', hst', -⟩ := executeBootstrap_ok he
      rw [hd] at hans
      simp only [Option.some.injEq, ExecuteAnswer.bootstrap.injEq] at hans
      obtain rfl := hans.1
      have hran := runs_ok hr
      have hfunds := exactFunds_amount s.funded
      -- the supply is the seed, and so is everything the contract holds
      have hsupply := hran.supply
      have hworth := hran.worth
      rw [hm] at hsupply hworth
      simp only [Seeded.messages, delegateMsg, List.map_cons, List.map_nil, List.sum_cons,
        List.sum_nil, CosmosMsg.minted, CosmosMsg.burned, CosmosMsg.leaving, hsup] at hsupply hworth
      have hworth : c₁.worth = c.bonded + c.held + b.val := hworth
      have hbonded : c.bonded = 0 := by rw [bonded, hstakes]; rfl
      have hheld : c.held = 0 := by rw [held, hstakes]; rfl
      have hres : c₁.store.reserved = 0 := by
        rw [hran.store, hst']
        show c.store.reserved = 0
        rw [hst]
        rfl
      have hb : b.val = s.seed.val := by
        rw [hb, hz, Word.val_zero, Nat.zero_add]
        exact hfunds
      have hsupply : c₁.supply.val = s.seed.val := by simpa using hsupply
      refine ⟨hmin, by omega, hsupply, ?_⟩
      rw [hassets, hres, hworth, hbonded, hheld, hb, Nat.zero_add, Nat.sub_zero]
  · cases ha

/-- **The seed defeats the inflation attack.** On the pool as a bootstrap leaves it, an attacker
deposits, donates to the contract, lets somebody else deposit, and then sends back every share it
holds, at any times: what it is owed is within what it put in. And once it is made, the other
deposit is worth more than it cost less the price of one share before it. -/
theorem seed_defeats_inflation {seed : ℕ} {attacker victim : Addr} {view₁ view₃ : Deps}
    {funds₁ funds₃ : List Coin} {a m donation d v : Uint128} (hR : c.Reaches)
    (hs : c.JustSeeded seed) (hne : attacker ≠ victim)
    (h₁ : c.Then (.call view₁ ⟨attacker, funds₁⟩ .deposit, some (.deposit a m)) c₁)
    (h₂ : c₁.Then (.inflow donation, none) c₂)
    (h₃ : c₂.Then (.call view₃ ⟨victim, funds₃⟩ .deposit, some (.deposit d v)) c₃) :
    (∀ view sender hook id x owed time c₄, c₃.Then (.send view sender attacker
        (c₃.sharesOf attacker) hook, some (.unbond id x owed time)) c₄ →
      owed.val ≤ a.val + donation.val) ∧
    (d.val : ℚ) - (c₂.assets : ℚ) / c₂.supply.val < v.val * c₃.assets / c₃.supply.val := by
  have hmin : 0 < minBootstrapSeed := by decide
  obtain ⟨hminimum, hlocked, hsupply, hassets⟩ := hs
  have hne₀ : c.supply ≠ 0 := fun hz => by
    rw [Word.eq_zero_iff] at hz
    omega
  -- the attacker's deposit: a share for each unit
  obtain ⟨hR₁, hself, ha₁, hs₁, hm, hu₁⟩ := h₁.deposited hR hne₀ (by omega)
  have hm : m.val = a.val := by
    rw [hm, hassets, hsupply, Nat.mul_div_cancel _ (by omega)]
  -- the donation
  obtain ⟨hR₂, ha₂, hs₂, hu₂⟩ := h₂.donated hR₁ (by omega)
  -- the other deposit
  have hs₂ : c₂.supply.val = c₁.supply.val := congrArg Word.val hs₂
  have hne₂ : c₂.supply ≠ 0 := fun hz => by
    rw [Word.eq_zero_iff] at hz
    omega
  obtain ⟨hR₃, -, ha₃, hs₃, hv, hu₃⟩ := h₃.deposited hR₂ hne₂ (by omega)
  have hd : d.val * c₂.supply.val < (v.val + 1) * c₂.assets := by
    rw [hv, Nat.mul_comm (_ / _ + 1)]
    exact Nat.lt_mul_div_succ _ (by omega)
  -- the shares the attacker holds
  have hx : (c₃.sharesOf attacker).val = a.val := by
    have h₀ : (c.sharesOf attacker).val = 0 :=
      sharesOf_eq_zero hR (hlocked.trans hsupply.symm) hself
    have h₁ := hu₁ attacker
    have h₃ := hu₃ attacker
    rw [if_pos rfl] at h₁
    rw [if_neg (Ne.symm hne), hu₂] at h₃
    omega
  refine ⟨fun view sender hook id x owed time c₄ h₄ => ?_, ?_⟩
  · obtain ⟨w, hRw, hn, hwa, hws, -, -⟩ := h₄.next hR₃
    obtain ⟨_, _, _, hans, -, -, -, howed⟩ := next_send hRw hn
    simp only [Option.some.injEq, ExecuteAnswer.unbond.injEq] at hans
    obtain ⟨-, -, rfl, -⟩ := hans
    rw [howed, hx, hwa, hws, ha₃, hs₃]
    exact Vault.donation_no_profit (by omega) (by omega) hd
  · rw [ha₃, hs₃]
    exact Vault.bought_worth (by omega) (by omega) hd

set_option maxRecDepth 10000 in
/-- On the seed of 10 SCRT an attacker deposits 10, donates 40, and sends its shares back after
somebody else has deposited 7: it is owed 30. -/
theorem seed_defeats_donation : ∃ (c₂ c₃ : Chain) (owed d v : Uint128), owed = Uint128.new 30000000 ∧
    owed.val ≤ (Uint128.new 10000000).val + (Uint128.new 40000000).val ∧
    (d.val : ℚ) - (c₂.assets : ℚ) / c₂.supply.val < v.val * c₃.assets / c₃.supply.val := by
  have hpool : (devChain.replay [devSeed]).map (fun s => (s.1.own, s.1.supply.val, s.1.assets)) =
      some (10000000, 10000000, 10000000) := by decide +kernel
  have hrun : ((devChain.replay [devSeed]).bind fun s =>
      (s.1.step (devEnter "attacker" (Uint128.new 10000000) .deposit)).bind fun r₁ =>
      (r₁.1.step (.inflow (Uint128.new 40000000))).bind fun r₂ =>
      (r₂.1.step (devEnter "victim" (Uint128.new 7000000) .deposit)).bind fun r₃ =>
      (r₃.1.step (devSend "attacker" (Uint128.new 10000000))).map fun r₄ =>
        ([r₁.2, r₂.2, r₃.2, r₄.2], r₃.1.sharesOf "attacker")) =
      some ([some (.deposit (Uint128.new 10000000) (Uint128.new 10000000)), none,
        some (.deposit (Uint128.new 7000000) (Uint128.new 2333333)),
        some (.unbond 0 (Uint128.new 10000000) (Uint128.new 30000000) 1574043819)],
        Uint128.new 10000000) := by decide +kernel
  obtain ⟨⟨c, h⟩, hc, hrun⟩ := Option.bind_eq_some_iff.1 hrun
  obtain ⟨⟨c₁, _⟩, h₁, hrun⟩ := Option.bind_eq_some_iff.1 hrun
  obtain ⟨⟨c₂, _⟩, h₂, hrun⟩ := Option.bind_eq_some_iff.1 hrun
  obtain ⟨⟨c₃, _⟩, h₃, hrun⟩ := Option.bind_eq_some_iff.1 hrun
  obtain ⟨⟨c₄, _⟩, h₄, hs⟩ := Option.map_eq_some_iff.1 hrun
  rw [hc] at hpool
  simp only [Option.map_some, Option.some.injEq, Prod.mk.injEq] at hpool
  simp only [Prod.mk.injEq, List.cons.injEq, and_true] at hs
  obtain ⟨⟨rfl, rfl, rfl, rfl⟩, hx⟩ := hs
  have hseed : c.JustSeeded 10000000 := ⟨by decide, hpool.1, hpool.2.1, hpool.2.2⟩
  obtain ⟨howed, hworth⟩ := seed_defeats_inflation ⟨devChain, h, devChain_fresh, replay_ok hc⟩ hseed
    (by decide) (.inl h₁) (.inl h₂) (.inl h₃)
  unfold devSend at h₄
  rw [← hx] at h₄
  exact ⟨c₂, c₃, _, _, _, rfl, howed _ _ _ _ _ _ _ _ (.inl h₄), hworth⟩

end Chain

end LstCore
