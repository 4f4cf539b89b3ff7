import Mathlib.Algebra.BigOperators.Group.Finset.Basic
import LstCore.Proof.World
import LstCore.Spec.Staking

/-!
# What the contract's messages do to its chain

* `collect_ok`, `grow_ok`, `shrink_ok`: a delegation paid out, added to and taken from.
* `run_ok`, `runs_ok`: what one message, and what all of them do, to the delegations and their
  rewards, to everything the contract holds, and to the token.
* `step_ok`: an event is a call on the chain it finds (`Entered`), or leaves the contract aside.
-/

namespace LstCore

open Lib

/-! ## Messages -/

namespace CosmosMsg

/-- What a message adds to the delegation to a validator. -/
def into (m : CosmosMsg) (validator : String) : ℕ :=
  match m with
  | .delegate v coin => if v = validator then coin.amount.val else 0
  | .redelegate _ dst coin => if dst = validator then coin.amount.val else 0
  | _ => 0

/-- What it takes from it. -/
def outOf (m : CosmosMsg) (validator : String) : ℕ :=
  match m with
  | .undelegate v coin => if v = validator then coin.amount.val else 0
  | .redelegate src _ coin => if src = validator then coin.amount.val else 0
  | _ => 0

/-- The delegations whose rewards it pays. -/
def touched : CosmosMsg → List String
  | .withdrawDelegatorReward v | .delegate v _ | .undelegate v _ => [v]
  | .redelegate src dst _ => [src, dst]
  | _ => []

/-- The delegation it adds to. -/
def target : CosmosMsg → Option String
  | .delegate v _ | .redelegate _ v _ => some v
  | _ => none

/-- What it takes out of the balance and the delegations together. -/
def leaving (self : Addr) (denom : String) : CosmosMsg → ℕ
  | .undelegate _ coin => coin.amount.val
  | .bankSend dest coins => if dest = self then 0 else amountIn denom coins
  | _ => 0

def minted : CosmosMsg → ℕ
  | .token _ (.mint _ amount _) => amount.val
  | _ => 0

def mintedTo (m : CosmosMsg) (account : Addr) : ℕ :=
  match m with
  | .token _ (.mint recipient amount _) => if recipient = account then amount.val else 0
  | _ => 0

def burned : CosmosMsg → ℕ
  | .token _ (.burn amount _) => amount.val
  | _ => 0

end CosmosMsg

/-- The delegations whose rewards messages pay, in order. -/
def paidBy (messages : List CosmosMsg) : List String := messages.flatMap (·.touched)

theorem paidBy_cons (m : CosmosMsg) (messages : List CosmosMsg) :
    paidBy (m :: messages) = m.touched ++ paidBy messages := List.flatMap_cons

theorem paidBy_append (messages l : List CosmosMsg) :
    paidBy (messages ++ l) = paidBy messages ++ paidBy l := List.flatMap_append

namespace Chain

variable {c c' : Chain} {m : CosmosMsg} {v u : String} {amount : Uint128}

/-- A delegation, empty where there is none. -/
def stakeOf (c : Chain) (validator : String) : Stake := (c.stakes.lookup validator).getD ⟨0, 0⟩

/-- What is delegated. -/
def bonded (c : Chain) : ℕ := c.stakes.total fun _ s => s.amount.val

/-- The rewards held at the validators. -/
def held (c : Chain) : ℕ := c.stakes.total fun _ s => s.rewards.val

/-- Everything the contract holds. -/
def worth (c : Chain) : ℕ := c.bonded + c.held + c.balance.val

/-! ## Delegations -/

theorem stakeOf_elim (f : Stake → ℕ) (hf : f ⟨0, 0⟩ = 0) :
    (c.stakes.lookup v).elim 0 f = f (c.stakeOf v) := by
  unfold stakeOf
  cases c.stakes.lookup v with
  | none => exact hf.symm
  | some s => rfl

theorem stakeOf_eq {s : Stake} (hs : c.stakes.lookup v = some s) : c.stakeOf v = s := by
  rw [stakeOf, hs]
  rfl

theorem held_le : (c.stakeOf v).rewards.val ≤ c.held := by
  unfold stakeOf held
  cases h : c.stakes.lookup v with
  | none => exact Nat.zero_le _
  | some s => exact Keymap.le_total (f := fun _ s => s.rewards.val) h

/-- The delegations of `c'` are those of `c` with one replaced. -/
structure Put (c : Chain) (v : String) (s : Stake) (c' : Chain) : Prop where
  at_v : c'.stakeOf v = s
  off_v : ∀ u, u ≠ v → c'.stakeOf u = c.stakeOf u
  bonded : c'.bonded + (c.stakeOf v).amount.val = c.bonded + s.amount.val
  held : c'.held + (c.stakeOf v).rewards.val = c.held + s.rewards.val
  known : ∀ u ∈ c'.stakes, u ∈ c.stakes ∨ u = v

theorem put_insert (h : c'.stakes = c.stakes.insert v s) : Put c v s c' where
  at_v := by simp [stakeOf, h]
  off_v u hu := by rw [stakeOf, h, AList.lookup_insert_ne hu, stakeOf]
  bonded := by
    have := Keymap.total_insert c.stakes (fun _ s => s.amount.val) v s
    rwa [stakeOf_elim (·.amount.val) rfl, ← h] at this
  held := by
    have := Keymap.total_insert c.stakes (fun _ s => s.rewards.val) v s
    rwa [stakeOf_elim (·.rewards.val) rfl, ← h] at this
  known u hu := by
    rw [h, AList.mem_insert] at hu
    exact hu.symm

theorem put_erase (h : c'.stakes = c.stakes.erase v) : Put c v ⟨0, 0⟩ c' where
  at_v := by simp [stakeOf, h]
  off_v u hu := by rw [stakeOf, h, AList.lookup_erase_ne hu, stakeOf]
  bonded := by
    have := Keymap.total_erase c.stakes (fun _ s => s.amount.val) v
    rwa [stakeOf_elim (·.amount.val) rfl, ← h] at this
  held := by
    have := Keymap.total_erase c.stakes (fun _ s => s.rewards.val) v
    rwa [stakeOf_elim (·.rewards.val) rfl, ← h] at this
  known u hu := by
    rw [h, AList.mem_erase] at hu
    exact .inl hu.2

/-- Replaced twice is replaced once. -/
theorem Put.trans {s' : Stake} (p : Put c v s c₁) (p' : Put c₁ v s' c') : Put c v s' c' where
  at_v := p'.at_v
  off_v u hu := (p'.off_v u hu).trans (p.off_v u hu)
  bonded := by
    have h := p.bonded
    have h' := p'.bonded
    rw [p.at_v] at h'
    omega
  held := by
    have h := p.held
    have h' := p'.held
    rw [p.at_v] at h'
    omega
  known u hu := (p'.known u hu).elim (p.known u) .inr

theorem mem_stakes {s : Stake} (h : c.stakes.lookup v = some s) : v ∈ c.stakes :=
  AList.lookup_isSome.1 (by rw [h]; rfl)

/-- Only the balance and the delegations have moved. -/
structure OnStaking (c c' : Chain) : Prop where
  store : c'.store = c.store
  now : c'.now = c.now
  self : c'.self = c.self
  supply : c'.supply = c.supply
  shares : c'.shares = c.shares

theorem OnStaking.trans (h : OnStaking c c₁) (h' : OnStaking c₁ c') : OnStaking c c' where
  store := h'.store.trans h.store
  now := h'.now.trans h.now
  self := h'.self.trans h.self
  supply := h'.supply.trans h.supply
  shares := h'.shares.trans h.shares

/-- **A delegation, paid out.** -/
theorem collect_ok (h : c.collect v = some c') : OnStaking c c' ∧
    c'.balance.val = c.balance.val + (c.stakeOf v).rewards.val ∧
      Put c v ⟨(c.stakeOf v).amount, 0⟩ c' ∧ ∀ u ∈ c'.stakes, u ∈ c.stakes := by
  unfold collect at h
  cases hs : c.stakes.lookup v with
  | none =>
    rw [hs] at h
    cases h
    have hv : c.stakeOf v = ⟨0, 0⟩ := by rw [stakeOf, hs]; rfl
    exact ⟨⟨rfl, rfl, rfl, rfl, rfl⟩, by rw [hv]; rfl,
      ⟨by rw [hv], fun _ _ => rfl, rfl, by rw [hv], fun _ => .inl⟩, fun _ => id⟩
  | some s =>
    rw [hs] at h
    simp only [Option.bind_eq_bind, Option.bind_eq_some_iff, Word.add?_eq_some, Option.pure_def,
      Option.some.injEq] at h
    obtain ⟨b, hb, hc⟩ := h
    have hv := stakeOf_eq hs
    have p : Put c v ⟨(c.stakeOf v).amount, 0⟩ c' := put_insert (by rw [← hc, hv])
    subst hc
    exact ⟨⟨rfl, rfl, rfl, rfl, rfl⟩, by rw [hv]; exact hb, p,
      fun u hu => (p.known u hu).elim id fun he => he ▸ mem_stakes hs⟩

theorem spend_ok (h : c.spend amount = some c') : OnStaking c c' ∧ c'.stakes = c.stakes ∧
    c.balance.val = c'.balance.val + amount.val := by
  unfold spend at h
  simp only [Option.bind_eq_bind, Option.bind_eq_some_iff, Word.sub?_eq_some, Option.pure_def,
    Option.some.injEq] at h
  obtain ⟨b, hb, rfl⟩ := h
  exact ⟨⟨rfl, rfl, rfl, rfl, rfl⟩, rfl, hb⟩

theorem grow_ok (h : c.grow v amount = some c') : OnStaking c c' ∧ c'.balance = c.balance ∧
    ∃ a : Uint128, a.val = (c.stakeOf v).amount.val + amount.val ∧
      Put c v ⟨a, (c.stakeOf v).rewards⟩ c' := by
  unfold grow at h
  simp only [Option.bind_eq_bind, Option.bind_eq_some_iff, Word.add?_eq_some, Option.pure_def,
    Option.some.injEq] at h
  obtain ⟨a, ha, rfl⟩ := h
  exact ⟨⟨rfl, rfl, rfl, rfl, rfl⟩, rfl, a, ha, put_insert rfl⟩

/-- Where nothing is left of a delegation, no rewards are. -/
theorem shrink_ok (h : c.shrink v amount = some c') (hz : (c.stakeOf v).rewards = 0) :
    OnStaking c c' ∧ c'.balance = c.balance ∧
    (∃ a : Uint128, (c.stakeOf v).amount.val = a.val + amount.val ∧ Put c v ⟨a, 0⟩ c') ∧
    ∀ u ∈ c'.stakes, u ∈ c.stakes := by
  unfold shrink at h
  simp only [Option.bind_eq_bind, Option.bind_eq_some_iff, Word.sub?_eq_some, Option.pure_def,
    Option.some.injEq] at h
  obtain ⟨s, hs, a, ha, hc⟩ := h
  have hv := stakeOf_eq hs
  rw [hv] at hz ⊢
  have p : Put c v ⟨a, 0⟩ c' := by
    by_cases h0 : a = 0
    · rw [h0]
      exact put_erase (by rw [← hc]; exact if_pos h0)
    · rw [← hz]
      exact put_insert (by rw [← hc]; exact if_neg h0)
  subst hc
  exact ⟨⟨rfl, rfl, rfl, rfl, rfl⟩, rfl, ⟨a, ha, p⟩,
    fun u hu => (p.known u hu).elim id fun he => he ▸ mem_stakes hs⟩

/-- Without a change of the delegations nothing about them changes. -/
theorem stakeOf_congr (h : c'.stakes = c.stakes) : c'.stakeOf = c.stakeOf ∧ c'.bonded = c.bonded ∧
    c'.held = c.held := by
  unfold stakeOf bonded held
  rw [h]
  exact ⟨rfl, rfl, rfl⟩

theorem Put.of_stakes (p : Put c v s c₁) (h : c'.stakes = c₁.stakes) : Put c v s c' := by
  obtain ⟨hstake, hbonded, hheld⟩ := stakeOf_congr h
  exact ⟨by rw [hstake, p.at_v], fun u hu => by rw [hstake, p.off_v u hu], hbonded ▸ p.bonded,
    hheld ▸ p.held, fun u hu => p.known u (h ▸ hu)⟩

/-! ## The token -/

/-- Only the token has moved. -/
structure OnToken (c c' : Chain) : Prop where
  store : c'.store = c.store
  now : c'.now = c.now
  self : c'.self = c.self
  balance : c'.balance = c.balance
  stakes : c'.stakes = c.stakes

/-- Everything the accounts hold of the token. -/
def shareTotal (c : Chain) : ℕ := c.shares.total fun _ a => a.val

theorem sharesOf_le : (c.sharesOf u).val ≤ c.shareTotal := by
  unfold sharesOf shareTotal
  cases h : c.shares.lookup u with
  | none => exact Nat.zero_le _
  | some a => exact Keymap.le_total (f := fun _ a => a.val) h

/-- What an account holds, replaced: nobody else's changes. -/
theorem shares_insert {a : Uint128} (c c' : Chain) (h : c'.shares = c.shares.insert v a) :
    (∀ u, (c'.sharesOf u).val + (if v = u then (c.sharesOf v).val else 0) =
      (c.sharesOf u).val + if v = u then a.val else 0) ∧
      c'.shareTotal + (c.sharesOf v).val = c.shareTotal + a.val := by
  constructor
  · intro u
    rw [sharesOf, h, Keymap.lookup_put]
    by_cases huv : v = u
    · subst huv
      simp only [if_true, Option.getD_some]
      exact Nat.add_comm _ _
    · rw [if_neg huv, if_neg huv, if_neg (Ne.symm huv)]
      rfl
  · have := Keymap.total_insert c.shares (fun _ a => a.val) v a
    have hv : (c.shares.lookup v).elim 0 (fun a => a.val) = (c.sharesOf v).val := by
      unfold sharesOf
      cases c.shares.lookup v <;> rfl
    rw [hv, ← h] at this
    exact this

theorem give_ok (h : c.give v amount = some c') : OnToken c c' ∧ c'.supply = c.supply ∧
    (∀ u, (c'.sharesOf u).val = (c.sharesOf u).val + if v = u then amount.val else 0) ∧
      c'.shareTotal = c.shareTotal + amount.val := by
  unfold give at h
  simp only [Option.bind_eq_bind, Option.bind_eq_some_iff, Word.add?_eq_some, Option.pure_def,
    Option.some.injEq] at h
  obtain ⟨a, ha, rfl⟩ := h
  obtain ⟨hu, htotal⟩ := shares_insert c { c with shares := c.shares.insert v a } rfl
  refine ⟨⟨rfl, rfl, rfl, rfl, rfl⟩, rfl, fun u => ?_, by omega⟩
  have := hu u
  split_ifs at this ⊢ <;> omega

theorem take_ok (h : c.take v amount = some c') : OnToken c c' ∧ c'.supply = c.supply ∧
    (∀ u, (c'.sharesOf u).val + (if v = u then amount.val else 0) = (c.sharesOf u).val) ∧
      c'.shareTotal + amount.val = c.shareTotal := by
  unfold take at h
  simp only [Option.bind_eq_bind, Option.bind_eq_some_iff, Word.sub?_eq_some, Option.pure_def,
    Option.some.injEq] at h
  obtain ⟨a, ha, rfl⟩ := h
  obtain ⟨hu, htotal⟩ := shares_insert c { c with shares := c.shares.insert v a } rfl
  refine ⟨⟨rfl, rfl, rfl, rfl, rfl⟩, rfl, fun u => ?_, by omega⟩
  have := hu u
  split_ifs at this ⊢ <;> omega

/-! ## One message -/

/-- **What a message does.** -/
structure Ran (c : Chain) (m : CosmosMsg) (c' : Chain) : Prop where
  store : c'.store = c.store
  now : c'.now = c.now
  self : c'.self = c.self
  amount : ∀ u, (c'.stakeOf u).amount.val + m.outOf u = (c.stakeOf u).amount.val + m.into u
  rewards : ∀ u, (c'.stakeOf u).rewards = if u ∈ m.touched then 0 else (c.stakeOf u).rewards
  held : c'.held + ∑ v ∈ m.touched.toFinset, (c.stakeOf v).rewards.val = c.held
  worth : c'.worth + m.leaving c.self.address c.store.config.bondedDenom = c.worth
  known : ∀ u ∈ c'.stakes, u ∈ c.stakes ∨ some u = m.target
  supply : c'.supply.val + m.burned = c.supply.val + m.minted
  sharesOf : ∀ u, (c'.sharesOf u).val + (if c.self.address = u then m.burned else 0) =
    (c.sharesOf u).val + m.mintedTo u
  shareTotal : c'.shareTotal + m.burned = c.shareTotal + m.minted

/-- A message that is none of the token's. -/
theorem OnStaking.ran (h : OnStaking c c')
    (hm : m.burned = 0 ∧ m.minted = 0 ∧ ∀ u, m.mintedTo u = 0)
    (amount : ∀ u, (c'.stakeOf u).amount.val + m.outOf u = (c.stakeOf u).amount.val + m.into u)
    (rewards : ∀ u, (c'.stakeOf u).rewards = if u ∈ m.touched then 0 else (c.stakeOf u).rewards)
    (held : c'.held + ∑ v ∈ m.touched.toFinset, (c.stakeOf v).rewards.val = c.held)
    (worth : c'.worth + m.leaving c.self.address c.store.config.bondedDenom = c.worth)
    (known : ∀ u ∈ c'.stakes, u ∈ c.stakes ∨ some u = m.target) : Ran c m c' where
  store := h.store
  now := h.now
  self := h.self
  amount := amount
  rewards := rewards
  held := held
  worth := worth
  known := known
  supply := by rw [h.supply, hm.1, hm.2.1]
  sharesOf u := by rw [Chain.sharesOf, h.shares, hm.1, hm.2.2, ite_self]; rfl
  shareTotal := by rw [Chain.shareTotal, h.shares, hm.1, hm.2.1]; rfl

theorem staked_ok {coin : Coin} (h : c.staked coin = some amount) : amount = coin.amount := by
  unfold staked at h
  split at h
  · exact (Option.some.inj h).symm
  · cases h

/-- **A message about one delegation**, which pays its rewards. -/
theorem OnStaking.ran_put {a : Uint128} (h : OnStaking c c') (p : Put c v ⟨a, 0⟩ c')
    (hm : m.burned = 0 ∧ m.minted = 0 ∧ ∀ u, m.mintedTo u = 0) (hv : m.touched = [v])
    (hoff : ∀ u, v ≠ u → m.outOf u = 0 ∧ m.into u = 0)
    (ha : a.val + m.outOf v = (c.stakeOf v).amount.val + m.into v)
    (worth : c'.worth + m.leaving c.self.address c.store.config.bondedDenom = c.worth)
    (known : ∀ u ∈ c'.stakes, u ∈ c.stakes ∨ some u = m.target) : Ran c m c' := by
  refine h.ran hm (fun u => ?_) (fun u => ?_) ?_ worth known
  · by_cases hu : u = v
    · rw [hu, p.at_v]
      exact ha
    · obtain ⟨hout, hinto⟩ := hoff u (Ne.symm hu)
      rw [p.off_v u hu, hout, hinto]
  · rw [hv]
    by_cases hu : u = v
    · rw [hu, p.at_v, if_pos (List.mem_singleton_self v)]
    · rw [p.off_v u hu, if_neg (mt List.mem_singleton.1 hu)]
  · rw [hv, List.toFinset_cons, List.toFinset_nil, insert_empty_eq, Finset.sum_singleton]
    exact p.held

theorem ran_withdraw (h : c.collect v = some c') : Ran c (.withdrawDelegatorReward v) c' := by
  obtain ⟨hs, hbal, p, hk⟩ := collect_ok h
  refine hs.ran_put p ⟨rfl, rfl, fun _ => rfl⟩ rfl (fun u _ => ⟨rfl, rfl⟩) rfl ?_
    fun u hu => .inl (hk u hu)
  have hb := p.bonded
  have hh := p.held
  simp only [worth, CosmosMsg.leaving, Word.val_zero] at hb hh ⊢
  omega

theorem ran_delegate {coin : Coin} (h : c.run (.delegate v coin) = some c') :
    Ran c (.delegate v coin) c' := by
  simp only [run, Option.bind_eq_bind, Option.bind_eq_some_iff] at h
  obtain ⟨a, ha, c₁, h₁, c₂, h₂, h₃⟩ := h
  obtain rfl := staked_ok ha
  obtain ⟨hs₁, hb₁, p₁, hk₁⟩ := collect_ok h₁
  obtain ⟨hs₂, he₂, hb₂⟩ := spend_ok h₂
  obtain ⟨hs₃, hb₃, x, hx, p₃⟩ := grow_ok h₃
  have p₂ := p₁.of_stakes he₂
  rw [p₂.at_v] at hx p₃
  have p := p₂.trans p₃
  refine ((hs₁.trans hs₂).trans hs₃).ran_put p ⟨rfl, rfl, fun _ => rfl⟩ rfl
    (fun u hu => ⟨rfl, if_neg hu⟩) (hx.trans (by simp [CosmosMsg.into])) ?_ fun u hu => ?_
  · have hb := p.bonded
    have hh := p.held
    have hbal := congrArg Word.val hb₃
    simp only [worth, CosmosMsg.leaving, Word.val_zero] at hb hh hx ⊢
    omega
  · exact (p.known u hu).imp_right fun hu => by rw [hu]; rfl

theorem ran_undelegate {coin : Coin} (h : c.run (.undelegate v coin) = some c') :
    Ran c (.undelegate v coin) c' := by
  simp only [run, Option.bind_eq_bind, Option.bind_eq_some_iff] at h
  obtain ⟨a, ha, c₁, h₁, h₂⟩ := h
  obtain rfl := staked_ok ha
  obtain ⟨hs₁, hb₁, p₁, hk₁⟩ := collect_ok h₁
  obtain ⟨hs₂, hb₂, ⟨x, hx, p₂⟩, hk₂⟩ := shrink_ok h₂ (by rw [p₁.at_v])
  rw [p₁.at_v] at hx
  have p := p₁.trans p₂
  refine (hs₁.trans hs₂).ran_put p ⟨rfl, rfl, fun _ => rfl⟩ rfl (fun u hu => ⟨if_neg hu, rfl⟩)
    (by simpa [CosmosMsg.outOf, CosmosMsg.into] using hx.symm) ?_ fun u hu => .inl (hk₁ u (hk₂ u hu))
  have hb := p.bonded
  have hh := p.held
  have hbal := congrArg Word.val hb₂
  simp only [worth, CosmosMsg.leaving, Word.val_zero] at hb hh hx ⊢
  omega

/-- What a redelegation makes of the two delegations, which are paid out first. -/
structure Redelegation (c : Chain) (src dst : String) (amount : Uint128) (c' : Chain) (x y : Uint128) :
    Prop where
  ne : src ≠ dst
  taken : (c.stakeOf src).amount.val = x.val + amount.val
  added : y.val = (c.stakeOf dst).amount.val + amount.val
  stakeOf : ∀ u, c'.stakeOf u =
    if u = dst then ⟨y, 0⟩ else if u = src then ⟨x, 0⟩ else c.stakeOf u
  bonded : c'.bonded = c.bonded
  held : c'.held + ((c.stakeOf src).rewards.val + (c.stakeOf dst).rewards.val) = c.held
  balance : c'.balance.val =
    c.balance.val + ((c.stakeOf src).rewards.val + (c.stakeOf dst).rewards.val)
  known : ∀ u ∈ c'.stakes, u ∈ c.stakes ∨ u = dst

/-- **A redelegation, inverted.** -/
theorem redelegate_ok {src dst : String} {coin : Coin}
    (h : c.run (.redelegate src dst coin) = some c') :
    OnStaking c c' ∧ ∃ x y, Redelegation c src dst coin.amount c' x y := by
  simp only [run] at h
  split at h
  · cases h
  rename_i hne
  simp only [Option.bind_eq_bind, Option.bind_eq_some_iff] at h
  obtain ⟨a, ha, c₁, h₁, c₂, h₂, c₃, h₃, h₄⟩ := h
  obtain rfl := staked_ok ha
  obtain ⟨hs₁, hb₁, p₁, hk₁⟩ := collect_ok h₁
  obtain ⟨hs₂, hb₂, p₂, hk₂⟩ := collect_ok h₂
  rw [p₁.off_v dst (Ne.symm hne)] at hb₂ p₂
  have hsrc : c₂.stakeOf src = ⟨(c.stakeOf src).amount, 0⟩ := by rw [p₂.off_v src hne, p₁.at_v]
  obtain ⟨hs₃, hb₃, ⟨x, hx, p₃⟩, hk₃⟩ := shrink_ok h₃ (by rw [hsrc])
  have hdst : c₃.stakeOf dst = ⟨(c.stakeOf dst).amount, 0⟩ := by
    rw [p₃.off_v dst (Ne.symm hne), p₂.at_v]
  obtain ⟨hs₄, hb₄, y, hy, p₄⟩ := grow_ok h₄
  rw [hsrc] at hx
  rw [hdst] at hy p₄
  -- both delegations change twice
  have hbonded := p₁.bonded
  have hbonded₂ := p₂.bonded
  have hbonded₃ := p₃.bonded
  have hbonded₄ := p₄.bonded
  have hheld := p₁.held
  have hheld₂ := p₂.held
  have hheld₃ := p₃.held
  have hheld₄ := p₄.held
  rw [p₁.off_v dst (Ne.symm hne)] at hbonded₂ hheld₂
  rw [hsrc] at hbonded₃ hheld₃
  rw [hdst] at hbonded₄ hheld₄
  have hbal := congrArg Word.val (hb₄.trans hb₃)
  dsimp only at hbonded hbonded₂ hbonded₃ hbonded₄ hx hy
  simp only [Word.val_zero] at hheld hheld₂ hheld₃ hheld₄
  refine ⟨((hs₁.trans hs₂).trans hs₃).trans hs₄, x, y, hne, hx, hy, fun u => ?_, by omega, by omega,
    by omega, fun u hu => (p₄.known u hu).imp_left fun hu => hk₁ u (hk₂ u (hk₃ u hu))⟩
  by_cases hd : u = dst
  · rw [if_pos hd, hd, p₄.at_v]
  rw [if_neg hd, p₄.off_v u hd]
  by_cases hsu : u = src
  · rw [if_pos hsu, hsu, p₃.at_v]
  · rw [if_neg hsu, p₃.off_v u hsu, p₂.off_v u hd, p₁.off_v u hsu]

theorem ran_redelegate {src dst : String} {coin : Coin}
    (h : c.run (.redelegate src dst coin) = some c') : Ran c (.redelegate src dst coin) c' := by
  obtain ⟨hs, x, y, hR⟩ := redelegate_ok h
  have hne := hR.ne
  refine hs.ran ⟨rfl, rfl, fun _ => rfl⟩ (fun u => ?_) (fun u => ?_) ?_ ?_ fun u hu => ?_
  · have hx := hR.taken
    have hy := hR.added
    rw [hR.stakeOf u]
    by_cases hd : u = dst
    · subst hd
      simp only [if_true, if_neg hne, CosmosMsg.outOf, CosmosMsg.into]
      omega
    · by_cases hsu : u = src
      · subst hsu
        simp only [if_neg hd, if_neg (Ne.symm hd), if_true, CosmosMsg.outOf, CosmosMsg.into]
        omega
      · simp only [if_neg hd, if_neg hsu, if_neg (Ne.symm hd), if_neg (Ne.symm hsu),
          CosmosMsg.outOf, CosmosMsg.into]
  · rw [hR.stakeOf u]
    by_cases hd : u = dst
    · simp [hd, CosmosMsg.touched]
    · by_cases hsu : u = src
      · simp [hsu, CosmosMsg.touched, hne]
      · simp [hd, hsu, CosmosMsg.touched]
  · rw [show (CosmosMsg.redelegate src dst coin).touched.toFinset = {src, dst} by simp [CosmosMsg.touched],
      Finset.sum_pair hne]
    exact hR.held
  · have hbonded := hR.bonded
    have hheld := hR.held
    have hbalance := hR.balance
    simp only [worth, CosmosMsg.leaving]
    omega
  · exact (hR.known u hu).imp_right fun hu => by rw [hu]; rfl

theorem ran_bankSend {dest : Addr} {coins : List Coin} (h : c.run (.bankSend dest coins) = some c') :
    Ran c (.bankSend dest coins) c' := by
  simp only [run, Option.bind_eq_bind, Option.bind_eq_some_iff, Option.pure_def, Option.some.injEq,
    Word.ofNat?_eq_some] at h
  obtain ⟨a, ha, after, hs, rfl⟩ := h
  obtain ⟨hs, he, hb⟩ := spend_ok hs
  by_cases hself : dest = c.self.address
  · rw [if_pos hself]
    refine OnStaking.ran ⟨rfl, rfl, rfl, rfl, rfl⟩ ⟨rfl, rfl, fun _ => rfl⟩ (fun _ => rfl)
      (fun _ => rfl) rfl ?_ fun _ => .inl
    simp only [CosmosMsg.leaving, if_pos hself, Nat.add_zero]
  · rw [if_neg hself]
    obtain ⟨hstake, hbonded, hheld⟩ := stakeOf_congr he
    refine hs.ran ⟨rfl, rfl, fun _ => rfl⟩ (fun u => by rw [hstake]; rfl)
      (fun u => by rw [hstake]; rfl) (by rw [hheld]; rfl) ?_ fun u hu => .inl (he ▸ hu)
    simp only [worth, hbonded, hheld, CosmosMsg.leaving, if_neg hself]
    omega

/-- A message to the token. -/
theorem OnToken.ran {token : ContractInfo} {msg : TokenExecuteMsg} (h : OnToken c c')
    (supply : c'.supply.val + (CosmosMsg.token token msg).burned =
      c.supply.val + (CosmosMsg.token token msg).minted)
    (sharesOf : ∀ u, (c'.sharesOf u).val +
      (if c.self.address = u then (CosmosMsg.token token msg).burned else 0) =
      (c.sharesOf u).val + (CosmosMsg.token token msg).mintedTo u)
    (shareTotal : c'.shareTotal + (CosmosMsg.token token msg).burned =
      c.shareTotal + (CosmosMsg.token token msg).minted) : Ran c (.token token msg) c' := by
  obtain ⟨hstake, hbonded, hheld⟩ := stakeOf_congr h.stakes
  exact {
    store := h.store
    now := h.now
    self := h.self
    amount := fun u => by rw [hstake]; rfl
    rewards := fun u => by rw [hstake]; rfl
    held := by rw [hheld]; rfl
    worth := by rw [worth, hbonded, hheld, h.balance]; rfl
    known := fun u hu => .inl (h.stakes ▸ hu)
    supply := supply
    sharesOf := sharesOf
    shareTotal := shareTotal }

theorem ran_token {token : ContractInfo} {msg : TokenExecuteMsg} (h : c.runToken msg = some c') :
    Ran c (.token token msg) c' := by
  cases msg with
  | mint recipient amount memo =>
    simp only [runToken, Option.bind_eq_bind, Option.bind_eq_some_iff, Word.add?_eq_some] at h
    obtain ⟨supply, hs, h⟩ := h
    obtain ⟨ht, hsupply, hshares, htotal⟩ := give_ok h
    refine OnToken.ran ⟨ht.store, ht.now, ht.self, ht.balance, ht.stakes⟩ ?_ (fun u => ?_) ?_
    · rw [hsupply]
      exact hs
    · rw [hshares u]
      simp only [CosmosMsg.burned, ite_self]
      rfl
    · exact htotal
  | burn amount memo =>
    simp only [runToken, Option.bind_eq_bind, Option.bind_eq_some_iff, Word.sub?_eq_some] at h
    obtain ⟨supply, hs, h⟩ := h
    obtain ⟨ht, hsupply, hshares, htotal⟩ := take_ok h
    refine OnToken.ran ⟨ht.store, ht.now, ht.self, ht.balance, ht.stakes⟩ ?_ hshares htotal
    rw [hsupply]
    exact hs.symm
  | registerReceive codeHash =>
    cases h
    exact OnToken.ran ⟨rfl, rfl, rfl, rfl, rfl⟩ rfl (fun u => by simp [CosmosMsg.burned, CosmosMsg.mintedTo]) rfl

/-- **What a message does.** -/
theorem run_ok (h : c.run m = some c') : Ran c m c' := by
  cases m with
  | delegate v coin => exact ran_delegate h
  | undelegate v coin => exact ran_undelegate h
  | redelegate src dst coin => exact ran_redelegate h
  | withdrawDelegatorReward v =>
    simp only [run, Option.bind_eq_bind, Option.bind_eq_some_iff] at h
    obtain ⟨-, -, h⟩ := h
    exact ran_withdraw h
  | bankSend dest coins => exact ran_bankSend h
  | token token msg =>
    simp only [run] at h
    split at h
    · exact ran_token h
    · cases h

/-! ## All of them -/

/-- **What messages do, run in order.** -/
structure RanAll (c : Chain) (messages : List CosmosMsg) (c' : Chain) : Prop where
  store : c'.store = c.store
  now : c'.now = c.now
  self : c'.self = c.self
  amount : ∀ u, (c'.stakeOf u).amount.val + (messages.map (·.outOf u)).sum =
    (c.stakeOf u).amount.val + (messages.map (·.into u)).sum
  rewards : ∀ u, (c'.stakeOf u).rewards = if u ∈ paidBy messages then 0 else (c.stakeOf u).rewards
  held : c'.held + ∑ u ∈ (paidBy messages).toFinset, (c.stakeOf u).rewards.val = c.held
  worth : c'.worth + (messages.map (·.leaving c.self.address c.store.config.bondedDenom)).sum = c.worth
  known : ∀ u ∈ c'.stakes, u ∈ c.stakes ∨ ∃ m ∈ messages, m.target = some u
  supply : c'.supply.val + (messages.map (·.burned)).sum =
    c.supply.val + (messages.map (·.minted)).sum
  sharesOf : ∀ u, (c'.sharesOf u).val +
      (if c.self.address = u then (messages.map (·.burned)).sum else 0) =
    (c.sharesOf u).val + (messages.map (·.mintedTo u)).sum
  shareTotal : c'.shareTotal + (messages.map (·.burned)).sum =
    c.shareTotal + (messages.map (·.minted)).sum

theorem RanAll.nil (c : Chain) : RanAll c [] c :=
  ⟨rfl, rfl, rfl, fun _ => rfl, fun _ => rfl, rfl, rfl, fun _ => .inl, rfl, fun u => by simp, rfl⟩

theorem RanAll.cons {messages : List CosmosMsg} (h : Ran c m c₁) (h' : RanAll c₁ messages c') :
    RanAll c (m :: messages) c' where
  store := h'.store.trans h.store
  now := h'.now.trans h.now
  self := h'.self.trans h.self
  amount u := by
    have := h.amount u
    have := h'.amount u
    simp only [List.map_cons, List.sum_cons]
    omega
  rewards u := by
    rw [h'.rewards u, h.rewards u, paidBy_cons, ← ite_or]
    exact if_congr (by rw [List.mem_append, or_comm]) rfl rfl
  held := by
    -- what the first has paid is gone when the others come to it
    have hrest : ∑ u ∈ (paidBy messages).toFinset, (c₁.stakeOf u).rewards.val =
        ∑ u ∈ (paidBy messages).toFinset \ m.touched.toFinset, (c.stakeOf u).rewards.val := by
      rw [Finset.sdiff_eq_filter, Finset.sum_filter]
      refine Finset.sum_congr rfl fun u _ => ?_
      rw [h.rewards u, ite_not]
      simp only [List.mem_toFinset]
      split <;> rfl
    have := h.held
    have := h'.held
    rw [paidBy_cons, List.toFinset_append, ← Finset.union_sdiff_self_eq_union,
      Finset.sum_union Finset.disjoint_sdiff]
    omega
  worth := by
    have := h.worth
    have := h'.worth
    rw [h.self, h.store] at this
    simp only [List.map_cons, List.sum_cons]
    omega
  known u hu := by
    rcases h'.known u hu with hu | ⟨n, hn, hu⟩
    · rcases h.known u hu with hu | hu
      · exact .inl hu
      · exact .inr ⟨m, List.mem_cons_self, hu.symm⟩
    · exact .inr ⟨n, List.mem_cons_of_mem _ hn, hu⟩
  supply := by
    have := h.supply
    have := h'.supply
    simp only [List.map_cons, List.sum_cons]
    omega
  sharesOf u := by
    have := h.sharesOf u
    have := h'.sharesOf u
    rw [h.self] at this
    simp only [List.map_cons, List.sum_cons]
    split_ifs at * <;> omega
  shareTotal := by
    have := h.shareTotal
    have := h'.shareTotal
    simp only [List.map_cons, List.sum_cons]
    omega

theorem runs_ok : ∀ {messages : List CosmosMsg} {c c' : Chain}, messages.foldlM run c = some c' →
    RanAll c messages c' := by
  intro messages
  induction messages with
  | nil =>
    intro c c' h
    simp only [List.foldlM_nil, Option.pure_def, Option.some.injEq] at h
    subst h
    exact .nil c
  | cons m messages ih =>
    intro c c' h
    rw [List.foldlM_cons, Option.bind_eq_bind, Option.bind_eq_some_iff] at h
    obtain ⟨mid, hm, h⟩ := h
    exact .cons (run_ok hm) (ih h)

/-! ## Events, inverted -/

/-- **A call to the contract, inverted.** -/
theorem enter_ok {view : Deps} {info : MessageInfo} {msg : ExecuteMsg}
    {answer : Option ExecuteAnswer} (h : c.enter view info msg = some (c', answer)) :
    ∃ store resp, execute (c.deps view) c.env info msg c.store = .ok (store, resp) ∧
      resp.messages.foldlM run { c with store := store } = some c' ∧ answer = resp.data := by
  unfold enter at h
  split at h
  · rename_i store resp he
    simp only [Option.bind_eq_bind, Option.bind_eq_some_iff, Option.pure_def, Option.some.injEq,
      Prod.mk.injEq] at h
    obtain ⟨d, hd, rfl, rfl⟩ := h
    exact ⟨store, resp, he, hd, rfl⟩
  · cases h

theorem fund_ok {info : MessageInfo} (h : c.fund info = some c') :
    ∃ b : Uint128, b.val = c.balance.val + amountIn c.store.config.bondedDenom info.funds ∧
      c' = { c with balance := b } := by
  unfold fund at h
  simp only [Option.bind_eq_bind, Option.bind_eq_some_iff, Word.ofNat?_eq_some, Word.add?_eq_some,
    Option.pure_def, Option.some.injEq] at h
  obtain ⟨f, hf, b, hb, rfl⟩ := h
  exact ⟨b, by omega, rfl⟩

/-- **Shares, moved** from one account to another, which may be the same. -/
theorem move_ok {toAddr : Addr} (h : c.move v toAddr amount = some c') : OnToken c c' ∧
    c'.supply = c.supply ∧ c'.shareTotal = c.shareTotal ∧
    ∀ u, (c'.sharesOf u).val + (if v = u then amount.val else 0) =
      (c.sharesOf u).val + if toAddr = u then amount.val else 0 := by
  unfold move at h
  simp only [Option.bind_eq_bind, Option.bind_eq_some_iff] at h
  obtain ⟨c₁, h₁, h₂⟩ := h
  obtain ⟨ht₁, hs₁, hu₁, htotal₁⟩ := take_ok h₁
  obtain ⟨ht₂, hs₂, hu₂, htotal₂⟩ := give_ok h₂
  refine ⟨⟨ht₂.store.trans ht₁.store, ht₂.now.trans ht₁.now, ht₂.self.trans ht₁.self,
    ht₂.balance.trans ht₁.balance, ht₂.stakes.trans ht₁.stakes⟩, hs₂.trans hs₁, by omega, fun u => ?_⟩
  have := hu₁ u
  have := hu₂ u
  omega

/-- A transfer changes only who holds the shares. -/
theorem move_eq {toAddr : Addr} (h : c.move v toAddr amount = some c') :
    c' = { c with shares := c'.shares } := by
  obtain ⟨hT, hsupply, -⟩ := move_ok h
  rw [← hT.store, ← hT.now, ← hT.self, ← hT.balance, ← hT.stakes, ← hsupply]

/-- **What an event does besides calling the contract**: the call, and the chain it finds. -/
inductive Entered (c : Chain) : ChainEvent → Chain → Deps → MessageInfo → ExecuteMsg → Prop
  | call {view : Deps} {info : MessageInfo} {msg : ExecuteMsg} {b : Uint128}
      (hs : ¬ c.IsContract info.sender)
      (hb : b.val = c.balance.val + amountIn c.store.config.bondedDenom info.funds) :
      Entered c (.call view info msg) { c with balance := b } view info msg
  | send {view : Deps} {sender fromAddr : Addr} {amount : Uint128} {hook : Option Binary}
      {token : ContractInfo} {c₁ : Chain} (hne : fromAddr ≠ c.self.address)
      (ht : c.store.config.token = some token)
      (hm : c.move fromAddr c.self.address amount = some c₁) :
      Entered c (.send view sender fromAddr amount hook) c₁ view ⟨token.address, []⟩
        (.receive sender fromAddr amount hook)

theorem Entered.store_eq {e : ChainEvent} {view : Deps} {info : MessageInfo} {msg : ExecuteMsg}
    (h : Entered c e c₁ view info msg) : c₁.store = c.store := by
  cases h with
  | call => rfl
  | send _ _ hm => exact (move_ok hm).1.store

/-- An event in which the contract is not called, except to be upgraded. -/
inductive Aside (c : Chain) : ChainEvent → Chain → Prop
  | transfer {fromAddr toAddr : Addr} {amount : Uint128} {c' : Chain}
      (hne : fromAddr ≠ c.self.address) (hm : c.move fromAddr toAddr amount = some c') :
      Aside c (.transfer fromAddr toAddr amount) c'
  | migrate {store : Storage} {resp : Response} (h : LstCore.migrate c.store = .ok (store, resp)) :
      Aside c .migrate { c with store := store }
  | inflow {amount b : Uint128} (hb : b.val = c.balance.val + amount.val) :
      Aside c (.inflow amount) { c with balance := b }
  | accrue {v : String} {amount r : Uint128} {s : Stake} (hs : c.stakes.lookup v = some s)
      (hr : r.val = s.rewards.val + amount.val) :
      Aside c (.accrue v amount) { c with stakes := c.stakes.insert v { s with rewards := r } }
  | slash {v : String} {amount a : Uint128} {s : Stake} (hs : c.stakes.lookup v = some s)
      (ha : s.amount.val = a.val + amount.val) :
      Aside c (.slash v amount) { c with stakes := c.stakes.insert v { s with amount := a } }
  | time {now : ℕ} (h : c.now ≤ now) : Aside c (.time now) { c with now := now }

/-- **An event, inverted.** -/
theorem step_ok {e : ChainEvent} {answer : Option ExecuteAnswer} (h : Next c (e, answer) c') :
    (∃ c₁ view info msg store resp, Entered c e c₁ view info msg ∧
      execute (c₁.deps view) c₁.env info msg c₁.store = .ok (store, resp) ∧
      resp.messages.foldlM run { c₁ with store := store } = some c' ∧ answer = resp.data) ∨
    answer = none ∧ Aside c e c' := by
  have h : c.step e = some (c', answer) := h
  cases e with
  | call view info msg =>
    unfold step at h
    dsimp only at h
    split at h
    · cases h
    rename_i hs
    simp only [Option.bind_eq_bind, Option.bind_eq_some_iff] at h
    obtain ⟨c₁, hf, h⟩ := h
    obtain ⟨b, hb, rfl⟩ := fund_ok hf
    obtain ⟨store, resp, he, hr, ha⟩ := enter_ok h
    exact .inl ⟨_, view, info, msg, store, resp, .call hs hb, he, hr, ha⟩
  | send view sender fromAddr amount hook =>
    unfold step at h
    dsimp only at h
    split at h
    · cases h
    rename_i hne
    simp only [Option.bind_eq_bind, Option.bind_eq_some_iff] at h
    obtain ⟨token, ht, c₁, hm, h⟩ := h
    obtain ⟨store, resp, he, hr, ha⟩ := enter_ok h
    exact .inl ⟨c₁, view, _, _, store, resp, .send hne ht hm, he, hr, ha⟩
  | transfer fromAddr toAddr amount =>
    unfold step at h
    dsimp only at h
    split at h
    · cases h
    rename_i hne
    simp only [Option.bind_eq_bind, Option.bind_eq_some_iff, Option.pure_def, Option.some.injEq,
      Prod.mk.injEq] at h
    obtain ⟨c₁, hm, rfl, rfl⟩ := h
    exact .inr ⟨rfl, .transfer hne hm⟩
  | migrate =>
    unfold step at h
    dsimp only at h
    split at h
    · rename_i store resp hm
      simp only [Option.some.injEq, Prod.mk.injEq] at h
      obtain ⟨rfl, rfl⟩ := h
      exact .inr ⟨rfl, .migrate hm⟩
    · cases h
  | inflow amount =>
    unfold step at h
    simp only [Option.bind_eq_bind, Option.bind_eq_some_iff, Option.pure_def,
      Option.some.injEq, Prod.mk.injEq, Word.add?_eq_some] at h
    obtain ⟨b, hb, rfl, rfl⟩ := h
    exact .inr ⟨rfl, .inflow hb⟩
  | accrue v amount =>
    unfold step at h
    simp only [Option.bind_eq_bind, Option.bind_eq_some_iff, Option.pure_def,
      Option.some.injEq, Prod.mk.injEq, Word.add?_eq_some] at h
    obtain ⟨s, hs, r, hr, rfl, rfl⟩ := h
    exact .inr ⟨rfl, .accrue hs hr⟩
  | slash v amount =>
    unfold step at h
    simp only [Option.bind_eq_bind, Option.bind_eq_some_iff, Option.pure_def,
      Option.some.injEq, Prod.mk.injEq, Word.sub?_eq_some] at h
    obtain ⟨s, hs, a, ha, rfl, rfl⟩ := h
    exact .inr ⟨rfl, .slash hs ha⟩
  | time now =>
    unfold step at h
    dsimp only at h
    split at h
    · rename_i hn
      simp only [Option.some.injEq, Prod.mk.injEq] at h
      obtain ⟨rfl, rfl⟩ := h
      exact .inr ⟨rfl, .time hn.1⟩
    · cases h

/-- **An event moves the contract's storage by a call, or not at all.** -/
theorem step_store {e : ChainEvent × Option ExecuteAnswer} (h : Next c e c') :
    c'.store = c.store ∨ ∃ x, Step c.store x c'.store := by
  obtain ⟨e, answer⟩ := e
  rcases step_ok h with ⟨c₁, view, info, msg, store, resp, hen, he, hr, -⟩ | ⟨-, ha⟩
  · rw [hen.store_eq] at he
    exact .inr ⟨(.execute (c₁.deps view) c₁.env info msg, resp), by rw [(runs_ok hr).store]; exact he⟩
  · cases ha with
    | migrate hm => exact .inr ⟨(.migrate, _), hm⟩
    | transfer _ hm => exact .inl (move_ok hm).1.store
    | _ => exact .inl rfl

theorem Fresh.reachable (h : c.Fresh) : Reachable c.store := by
  obtain ⟨-, -, -, view, info, msg, resp, hi⟩ := h
  exact ⟨c.store, [], ⟨_, _, info, msg, resp, hi⟩, .nil⟩

/-- What an event keeps, every history keeps. -/
theorem Reaches.inv {P : Chain → Prop} (h : c.Reaches) (h0 : ∀ c, c.Fresh → P c)
    (hstep : ∀ c e c', c.Reaches → P c → Next c e c' → P c') : P c := by
  obtain ⟨c₀, es, hf, hr⟩ := h
  suffices hsuff : c.Reaches ∧ P c from hsuff.2
  refine hr.inv (P := fun c => c.Reaches ∧ P c) ⟨⟨c₀, [], hf, .nil⟩, h0 c₀ hf⟩ ?_
  rintro s e t ⟨⟨c₁, hs, hf, hr⟩, hP⟩ hn
  exact ⟨⟨c₁, e :: hs, hf, hr.cons hn⟩, hstep s e t ⟨c₁, hs, hf, hr⟩ hP hn⟩

theorem Reaches.next {e : ChainEvent × Option ExecuteAnswer} (h : c.Reaches) (hn : Next c e c') :
    c'.Reaches := by
  obtain ⟨c₀, es, hf, hr⟩ := h
  exact ⟨c₀, e :: es, hf, hr.cons hn⟩

theorem Reaches.run {h : List (ChainEvent × Option ExecuteAnswer)} (hc : c.Reaches)
    (hr : Run Next c h c') : c'.Reaches := by
  obtain ⟨c₀, es, hf, hr₀⟩ := hc
  exact ⟨c₀, h ++ es, hf, hr₀.trans hr⟩

/-- **The contract's storage on a chain is reachable.** -/
theorem Reaches.reachable (h : c.Reaches) : Reachable c.store := by
  refine h.inv (fun c hf => hf.reachable) fun c e c' _ hR hn => ?_
  rcases step_store hn with heq | ⟨x, hx⟩
  · rwa [heq]
  · exact hR.step hx

/-! ## The deployment of the tests -/

/-- Run events in order, and record what was answered, the newest first. -/
def replay (c : Chain) (es : List ChainEvent) :
    Option (Chain × List (ChainEvent × Option ExecuteAnswer)) :=
  es.foldlM (fun s e => (s.1.step e).map fun r => (r.1, (e, r.2) :: s.2)) (c, [])

theorem replay_ok {es : List ChainEvent} {h : List (ChainEvent × Option ExecuteAnswer)}
    (hr : c.replay es = some (c', h)) : Run Next c h c' := by
  refine (Run.of_foldlM hr).inv (P := fun s => Run Next c s.2 s.1) .nil ?_
  rintro ⟨d, l⟩ e ⟨d', l'⟩ hd hs
  obtain ⟨⟨x, a⟩, hx, he⟩ := Option.map_eq_some_iff.1 hs
  rw [Prod.mk.injEq] at he
  obtain ⟨rfl, rfl⟩ := he
  exact hd.cons hx

/-- The history has the events, the newest first. -/
theorem replay_events {es : List ChainEvent} {h : List (ChainEvent × Option ExecuteAnswer)}
    (hr : c.replay es = some (c', h)) : h.map (·.1) = es.reverse := by
  suffices hgen : ∀ {es : List ChainEvent} {s s' : Chain × List (ChainEvent × Option ExecuteAnswer)},
      es.foldlM (fun s e => (s.1.step e).map fun r => (r.1, (e, r.2) :: s.2)) s = some s' →
      s'.2.map (·.1) = es.reverse ++ s.2.map (·.1) by
    simpa using hgen hr
  intro es
  induction es with
  | nil =>
    intro s s' h
    simp only [List.foldlM_nil, Option.pure_def, Option.some.injEq] at h
    subst h
    rfl
  | cons e es ih =>
    intro s s' h
    rw [List.foldlM_cons, Option.bind_eq_bind, Option.bind_eq_some_iff] at h
    obtain ⟨mid, hm, h⟩ := h
    obtain ⟨⟨x, answer⟩, -, rfl⟩ := Option.map_eq_some_iff.1 hm
    rw [ih h]
    simp

/-- Run events that all meet a guard, and record what was answered. -/
def replayIf (guard : Chain → ChainEvent × Option ExecuteAnswer → Prop)
    [∀ c e, Decidable (guard c e)] (c : Chain) (es : List ChainEvent) :
    Option (Chain × List (ChainEvent × Option ExecuteAnswer)) :=
  es.foldlM (fun s e => (s.1.step e).bind fun r =>
    if guard s.1 (e, r.2) then some (r.1, (e, r.2) :: s.2) else none) (c, [])

theorem replayIf_ok {guard : Chain → ChainEvent × Option ExecuteAnswer → Prop}
    [∀ c e, Decidable (guard c e)] {es : List ChainEvent}
    {h : List (ChainEvent × Option ExecuteAnswer)} (hr : c.replayIf guard es = some (c', h)) :
    Run (Guarded Next guard) c h c' := by
  refine (Run.of_foldlM hr).inv (P := fun s => Run (Guarded Next guard) c s.2 s.1) .nil ?_
  rintro ⟨d, l⟩ e ⟨d', l'⟩ hd hs
  obtain ⟨⟨x, a⟩, hx, hs⟩ := Option.bind_eq_some_iff.1 hs
  rw [Option.ite_none_right_eq_some, Option.some.injEq, Prod.mk.injEq] at hs
  obtain ⟨hg, rfl, rfl⟩ := hs
  exact hd.cons ⟨hx, hg⟩

theorem replay_one {e : ChainEvent} {h : List (ChainEvent × Option ExecuteAnswer)}
    (hr : c.replay [e] = some (c', h)) : ∃ answer, Next c (e, answer) c' ∧ h = [(e, answer)] := by
  simp only [replay, List.foldlM_cons, List.foldlM_nil, Option.bind_eq_bind, Option.bind_eq_some_iff,
    Option.map_eq_some_iff, Option.pure_def, Option.some.injEq] at hr
  obtain ⟨_, ⟨⟨x, answer⟩, hx, rfl⟩, he⟩ := hr
  rw [Prod.mk.injEq] at he
  obtain ⟨rfl, rfl⟩ := he
  exact ⟨answer, hx, rfl⟩

end Chain

def devChain : Chain where
  store := devWorld.store
  now := devStart
  self := devSelf
  balance := 0
  stakes := ∅
  supply := 0
  shares := ∅

theorem devChain_fresh : devChain.Fresh :=
  ⟨rfl, rfl, rfl, devView 0 [], ⟨"deployer", []⟩, devInit, ⟨[], none⟩, by rfl⟩

/-- A call on the chain of `devChain`, where every address is valid. -/
def devEnter (sender : Addr) (funds : Uint128) (msg : ExecuteMsg) : ChainEvent :=
  .call (devView 0 []) ⟨sender, if funds = 0 then [] else [⟨"uscrt", funds⟩]⟩ msg

/-- Somebody sends shares back. -/
def devSend (user : Addr) (shares : Uint128) : ChainEvent :=
  .send (devView 0 []) user user shares (some (.ok .unbond))

/-- The seed of 10 SCRT. -/
def devSeed : ChainEvent := devEnter "deployer" (Uint128.new 10000000) (.bootstrap "token" "tokenhash")

end LstCore
