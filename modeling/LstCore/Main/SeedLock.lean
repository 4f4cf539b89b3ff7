import LstCore.Proof.Supply

/-!
# The seed stays locked

The shares of the seed are minted to the contract, which burns only what has just been sent to it.
So what the contract holds of its token never falls, the supply never falls below the seed, and no
conversion is ever asked at a supply of zero (`seed_locked`).
-/

namespace LstCore

open Lib

namespace Chain

variable {c c' c₁ : Chain} {view : Deps} {info : MessageInfo} {msg : ExecuteMsg}

/-- What the conversions of a call find: a supply, and no less of it than the call burns. -/
structure Convertible (c : Chain) (view : Deps) (msg : ExecuteMsg) : Prop where
  priced : ∀ exclude st pool, pricingPool (c.deps view) c.env exclude c.store = .ok (st, pool) →
    pool.supply ≠ 0 ∧ msg.burns ≤ pool.supply.val
  cached : ∀ exclude pool, poolTotals (c.deps view) c.env c.store exclude = .ok pool →
    pool.supply ≠ 0
  harvested : ∀ liquid owedBacked set pool, harvestPool c.store liquid owedBacked set = .ok pool →
    pool.supply ≠ 0

/-- In a call on a chain with a supply, every conversion finds it. -/
theorem Entered.convertible {e : ChainEvent} (h : Entered c e c₁ view info msg) (hM : Mirror c)
    (hpos : 0 < c.supply.val) {store : Storage} {resp : Response}
    (he : execute (c₁.deps view) c₁.env info msg c₁.store = .ok (store, resp)) :
    c₁.Convertible view msg := by
  have hM₁ := h.mirror hM
  have hs₁ := h.token.1
  have hpos₁ : c₁.supply ≠ 0 := fun hz => by
    rw [← hs₁, hz] at hpos
    exact absurd hpos (Nat.lt_irrefl 0)
  have hown := h.own_add he
  have hburns : msg.burns ≤ c₁.supply.val := by
    have hle : c₁.own ≤ c₁.shareTotal := sharesOf_le
    rw [hM₁.shares] at hle
    omega
  have hcached : ∀ exclude pool, poolTotals (c₁.deps view) c₁.env c₁.store exclude = .ok pool →
      pool.supply = c₁.supply := by
    intro exclude pool hp
    unfold poolTotals at hp
    simp only [bind_eq_ok, pure_eq_ok] at hp
    obtain ⟨_, -, _, -, rfl⟩ := hp
    exact hM₁.supply
  refine ⟨fun exclude st pool hp => ?_, fun exclude pool hp => by rwa [hcached _ _ hp],
    fun liquid owedBacked set pool hp => ?_⟩
  · obtain ⟨hr, hp⟩ := pricingPool_eq_ok.1 hp
    have hsup := refreshTotals_supply hr
    rw [mirrorSupply_eq hM₁.supply, Except.ok.injEq] at hsup
    unfold poolTotals at hp
    simp only [bind_eq_ok, pure_eq_ok] at hp
    obtain ⟨_, -, _, -, rfl⟩ := hp
    dsimp only
    rw [← hsup]
    exact ⟨hpos₁, hburns⟩
  · unfold harvestPool at hp
    simp only [bind_eq_ok, pure_eq_ok] at hp
    obtain ⟨_, -, _, -, rfl⟩ := hp
    dsimp only
    rwa [hM₁.supply]

/-- **The mirrored supply and the locked seed.** From the seeding of the pool on, between events,
the cached supply is the token's, the contract holds the seed of it, and no less than that is ever
in supply. So whatever is called next, no conversion is asked at a supply of zero, and a request
burns no more than the supply it is booked against. -/
theorem seed_locked {addr hash : String} {answer : Option ExecuteAnswer} {c₀ : Chain}
    {h : List (ChainEvent × Option ExecuteAnswer)} (hR : c₀.Reaches)
    (hn : Next c₀ (.call view info (.bootstrap addr hash), answer) c₁) (hr : Run Next c₁ h c) :
    ∃ seed : Uint128, answer = some (.bootstrap seed seed) ∧ minBootstrapSeed ≤ seed.val ∧
      c.store.totals.totalSupply = c.supply ∧ seed.val ≤ c.own ∧ c.own ≤ c.supply.val ∧
      (∀ view pool, poolTotals (c.deps view) c.env c.store 0 = .ok pool → pool.supply ≠ 0) ∧
      ∀ e c₂ view info msg store resp, Entered c e c₂ view info msg →
        execute (c₂.deps view) c₂.env info msg c₂.store = .ok (store, resp) →
        c₂.Convertible view msg := by
  obtain ⟨seed, hans, hmin, hseed⟩ := seed_le hn
  have hR₁ := hR.next hn
  have hRc := hR₁.run hr
  have hM := hRc.mirror
  -- the contract's shares are kept along the run
  have hown : c₁.own ≤ c.own := by
    refine (hr.inv (P := fun c => c.Reaches ∧ c₁.own ≤ c.own) ⟨hR₁, Nat.le_refl _⟩ ?_).2
    rintro s e t ⟨hs, hle⟩ hst
    exact ⟨hs.next hst, hle.trans (own_le hs hst)⟩
  have hle : c.own ≤ c.supply.val := hM.shares ▸ sharesOf_le
  have hpos : 0 < c.supply.val := by
    have : 0 < minBootstrapSeed := by decide
    omega
  refine ⟨seed, hans, hmin, hM.supply, hseed.trans hown, hle, fun view pool hp hz => ?_,
    fun e c₂ view info msg store resp hen he => hen.convertible hM hpos he⟩
  unfold poolTotals at hp
  simp only [bind_eq_ok, pure_eq_ok] at hp
  obtain ⟨_, -, _, -, rfl⟩ := hp
  have hz : c.store.totals.totalSupply = 0 := hz
  rw [hM.supply] at hz
  rw [hz] at hpos
  exact absurd hpos (Nat.lt_irrefl 0)

set_option maxRecDepth 10000 in
/-- A user deposits 100 SCRT and sends all of the shares back: the seed is left. -/
theorem seed_locked_withdrawn : ∃ c : Chain, c.sharesOf "user" = 0 ∧
    c.supply = Uint128.new 10000000 ∧ ∃ seed : Uint128, seed = Uint128.new 10000000 ∧
    c.store.totals.totalSupply = c.supply ∧ seed.val ≤ c.own ∧ c.own ≤ c.supply.val := by
  have hseed : (devChain.replay [devSeed]).map (fun s => s.2.map (·.2)) =
      some [some (.bootstrap (Uint128.new 10000000) (Uint128.new 10000000))] := by decide +kernel
  have hrun : (devChain.replay [devSeed]).bind (fun s => (s.1.replay
        [devEnter "user" (Uint128.new 100000000) .deposit, devSend "user" (Uint128.new 100000000)]).map
      fun r => (r.1.sharesOf "user", r.1.supply)) = some (0, Uint128.new 10000000) := by decide +kernel
  obtain ⟨⟨c₁, h₁⟩, hw, hans⟩ := Option.map_eq_some_iff.1 hseed
  rw [hw, Option.bind_some] at hrun
  obtain ⟨⟨c, h⟩, hr, hs⟩ := Option.map_eq_some_iff.1 hrun
  rw [Prod.mk.injEq] at hs
  obtain ⟨answer, hn, rfl⟩ := replay_one hw
  obtain ⟨seed, ha, -, hsup, hle, hle', -⟩ :=
    seed_locked ⟨devChain, [], devChain_fresh, .nil⟩ hn (replay_ok hr)
  simp only [List.map_cons, List.map_nil, List.cons.injEq, and_true] at hans
  rw [hans, Option.some.injEq, ExecuteAnswer.bootstrap.injEq] at ha
  exact ⟨c, hs.1, hs.2, seed, ha.1.symm, hsup, hle, hle'⟩

end Chain

end LstCore
