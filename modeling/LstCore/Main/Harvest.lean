import LstCore.Proof.Changes

/-!
# What becomes of the rewards

A message that changes a delegation pays its rewards into the balance, where no compound finds them
again. So along a run what compounds harvest and what the validators still hold is what has accrued
exactly if every event leaves alone the delegations that have rewards, or harvests them
(`harvested_iff`), and one deposit is enough to break it (`reward_unharvested`).
-/

namespace LstCore

open Lib

namespace Chain

variable {c c' c₁ : Chain} {view : Deps} {info : MessageInfo} {store : Storage} {resp : Response}
  {h : List (ChainEvent × Option ExecuteAnswer)}

/-- What an event accrues. -/
def accruedIn : ChainEvent × Option ExecuteAnswer → ℕ
  | (.accrue _ amount, _) => amount.val
  | _ => 0

/-- What it harvests: what a compound restakes and charges the fee on. -/
def harvestedIn : ChainEvent × Option ExecuteAnswer → ℕ
  | (.call _ _ (.compound _), some (.compound harvested _ _ _)) => harvested.val
  | _ => 0

/-- The delegations that an event changes, besides those whose rewards it harvests. -/
def changedBy (c : Chain) : ChainEvent → List String
  | .call _ info msg => c.changes info msg
  | .send _ sender fromAddr amount hook =>
    c.changes ⟨sender, []⟩ (.receive sender fromAddr amount hook)
  | _ => []

/-- No delegation that an event changes has rewards. -/
def Quiet (c : Chain) (e : ChainEvent × Option ExecuteAnswer) : Prop :=
  ∀ v ∈ c.changedBy e.1, (c.stakeOf v).rewards = 0

instance (c : Chain) (e : ChainEvent × Option ExecuteAnswer) : Decidable (c.Quiet e) :=
  inferInstanceAs (Decidable (∀ _ ∈ _, _))

/-! ## Rewards -/

/-- The rewards of some delegations, each counted once. -/
def rewardsIn (c : Chain) (l : List String) : ℕ := ∑ v ∈ l.toFinset, (c.stakeOf v).rewards.val

theorem rewardsIn_eq_zero {l : List String} :
    c.rewardsIn l = 0 ↔ ∀ v ∈ l, (c.stakeOf v).rewards = 0 := by
  unfold rewardsIn
  simp only [Finset.sum_eq_zero_iff, List.mem_toFinset, Word.eq_zero_iff]

theorem rewardsIn_append (l l' : List String) :
    c.rewardsIn (l ++ l') = c.rewardsIn l + c.rewardsIn (l'.filter (· ∉ l)) := by
  unfold rewardsIn
  rw [List.toFinset_append, ← Finset.union_sdiff_self_eq_union, Finset.sum_union Finset.disjoint_sdiff]
  refine congrArg₂ (· + ·) rfl (Finset.sum_congr ?_ fun _ _ => rfl)
  ext v
  simp

theorem mem_rewarded {page : List ValidatorEntry} {v : String} :
    v ∈ c.rewarded page ↔ v ∈ page.map (·.address) ∧ (c.stakeOf v).rewards ≠ 0 := by
  unfold rewarded
  simp only [List.mem_map, List.mem_filter, decide_eq_true_eq]
  constructor
  · rintro ⟨x, ⟨hx, hr⟩, rfl⟩
    exact ⟨⟨x, hx, rfl⟩, hr⟩
  · rintro ⟨⟨x, hx, rfl⟩, hr⟩
    exact ⟨x, ⟨hx, hr⟩, rfl⟩

/-- **The rewards of a page**, whose validators are distinct. -/
theorem rewardsIn_rewarded {page : List ValidatorEntry} (hnd : (page.map (·.address)).Nodup) :
    c.rewardsIn (c.rewarded page) = (page.map fun v => (c.stakeOf v.address).rewards.val).sum := by
  have hnd' : (c.rewarded page).Nodup := hnd.sublist (List.filter_sublist.map _)
  unfold rewardsIn
  rw [List.sum_toFinset _ hnd', rewarded, List.map_map]
  clear hnd hnd'
  induction page with
  | nil => rfl
  | cons v page ih =>
    rw [List.map_cons, List.sum_cons, ← ih, List.filter_cons]
    split
    · rfl
    · rename_i hz
      rw [show (c.stakeOf v.address).rewards = 0 by simpa using hz, Word.val_zero, Nat.zero_add]

/-- What is restaked with a validator of the page pays nothing more. -/
theorem rewardsIn_page {page : List ValidatorEntry} (hnd : (page.map (·.address)).Nodup)
    (l : List String) : c.rewardsIn (c.rewarded page ++ l) =
      (page.map fun v => (c.stakeOf v.address).rewards.val).sum +
        c.rewardsIn (l.filter fun v => v ∉ page.map (·.address)) := by
  rw [rewardsIn_append, rewardsIn_rewarded hnd, rewardsIn, rewardsIn]
  refine congrArg _ (Finset.sum_subset ?_ ?_).symm
  · intro v hv
    simp only [List.mem_toFinset, List.mem_filter, decide_eq_true_eq, mem_rewarded] at hv ⊢
    exact ⟨hv.1, fun hmem => hv.2 hmem.1⟩
  · intro v hv hnot
    simp only [List.mem_toFinset, List.mem_filter, decide_eq_true_eq, mem_rewarded] at hv hnot
    by_contra hz
    have hpage : v ∈ page.map (·.address) := by
      by_contra hpage
      exact hnot ⟨hv.1, hpage⟩
    exact hv.2 ⟨hpage, fun h0 => hz (by rw [h0, Word.val_zero])⟩

/-! ## One event -/

/-- What arrives with a call has no part in what it changes. -/
theorem Entered.changes_eq {e : ChainEvent} {msg : ExecuteMsg} (hen : Entered c e c₁ view info msg)
    (he : execute (c₁.deps view) c₁.env info msg c₁.store = .ok (store, resp)) :
    c₁.changes info msg = c.changedBy e := by
  cases hen with
  | call hs hb =>
    cases msg with
    | receive sender fromAddr amount hook =>
      exact absurd (receive_isContract he) hs
    | manager m => cases m <;> rfl
    | _ => rfl
  | send hne ht hm =>
    rw [move_eq hm]
    rfl

/-- A compound alone harvests. -/
theorem Entered.harvestedIn_eq {e : ChainEvent} {msg : ExecuteMsg} {answer : Option ExecuteAnswer}
    (hen : Entered c e c₁ view info msg) (hm : ∀ limit, msg ≠ .compound limit) :
    harvestedIn (e, answer) = 0 := by
  cases hen with
  | call =>
    cases msg with
    | compound limit => exact absurd rfl (hm limit)
    | _ => rfl
  | send => rfl

/-- **What a call pays of the rewards** is what it harvests, and what comes with what it changes. -/
theorem Entered.rewardsIn_paid {e : ChainEvent} {msg : ExecuteMsg} (hR : c.Reaches)
    (hen : Entered c e c₁ view info msg)
    (he : execute (c₁.deps view) c₁.env info msg c₁.store = .ok (store, resp)) :
    c.rewardsIn (paidBy resp.messages) =
      harvestedIn (e, resp.data) + c.rewardsIn (c.changedBy e) := by
  by_cases hcomp : ∃ limit, msg = .compound limit
  · obtain ⟨limit, rfl⟩ := hcomp
    obtain ⟨stop, harvested, fee, processed, done, hstop, hd, hval, hp⟩ := compound_paid he
    cases hen with
    | call hs hb =>
      have hstop : pageEnd c.store.syncCursor (limit.getD defaultCompoundLimit)
        c.store.validators = .ok stop := hstop
      have hnd := addresses_page hR.reachable.slotted.distinct c.store.syncCursor stop
      have hp : paidBy resp.messages =
        c.rewarded (pageOf c.store.syncCursor stop c.store.validators) ++ c.restakedWith stop := hp
      rw [hp, rewardsIn_page hnd, hd]
      simp only [changedBy, changes, hstop]
      exact congrArg (· + _) hval.symm
  · have hnot : ∀ limit, msg ≠ .compound limit := fun limit hl => hcomp ⟨limit, hl⟩
    have hB : Booked c₁.store := hen.store_eq ▸ hR.reachable.booked
    rw [hen.harvestedIn_eq hnot, Nat.zero_add, ← hen.changes_eq he,
      execute_paid (hen.mirror hR.mirror) hB hnot he]

/-- Without a call only what accrues moves the rewards. -/
theorem Aside.held_eq {e : ChainEvent} (ha : Aside c e c') :
    c'.held = c.held + accruedIn (e, none) := by
  cases ha with
  | transfer hne hm => exact (stakeOf_congr (move_ok hm).1.stakes).2.2
  | accrue hs hr =>
    rename_i v amount r s
    have hput : Put c v { s with rewards := r }
      { c with stakes := c.stakes.insert v { s with rewards := r } } := put_insert rfl
    have hheld := hput.held
    rw [stakeOf_eq hs] at hheld
    dsimp only at hheld hr
    show _ = _ + amount.val
    omega
  | slash hs hr =>
    rename_i v amount a s
    have hput : Put c v { s with amount := a }
      { c with stakes := c.stakes.insert v { s with amount := a } } := put_insert rfl
    have hheld := hput.held
    rw [stakeOf_eq hs] at hheld
    exact Nat.add_right_cancel hheld
  | migrate | inflow | time => rfl

/-- **What becomes of the rewards in an event**: what accrues is held, harvested, or lost to the
balance with a change of its delegation. -/
theorem rewards_step {e : ChainEvent × Option ExecuteAnswer} (hR : c.Reaches) (hn : Next c e c') :
    c'.held + harvestedIn e + c.rewardsIn (c.changedBy e.1) = c.held + accruedIn e := by
  obtain ⟨e, answer⟩ := e
  rcases step_ok hn with ⟨c₁, view, info, msg, store, resp, hen, he, hr, rfl⟩ | ⟨rfl, ha⟩
  · have hstakes : ({ c₁ with store := store } : Chain).stakes = c.stakes := hen.stakes_eq
    obtain ⟨hstake, -, hh⟩ := stakeOf_congr hstakes
    have hheld := (runs_ok hr).held
    rw [hh, hstake] at hheld
    have hpaid : c.rewardsIn (paidBy resp.messages) = harvestedIn (e, resp.data) +
      c.rewardsIn (c.changedBy e) := hen.rewardsIn_paid hR he
    have haccrued : accruedIn (e, resp.data) = 0 := by cases hen <;> rfl
    unfold rewardsIn at hpaid
    rw [hpaid] at hheld
    rw [haccrued]
    show c'.held + harvestedIn (e, resp.data) + c.rewardsIn (c.changedBy e) = _
    unfold rewardsIn
    omega
  · have hnone : c.changedBy e = [] := by cases ha <;> rfl
    have hharvested : harvestedIn (e, none) = 0 := by cases ha <;> rfl
    rw [hnone, hharvested, ha.held_eq]
    rfl

/-! ## Runs -/

/-- **Every reward is harvested, exactly if every event is quiet.** In a run from a fresh contract
what the compounds have harvested and what the validators still hold is what has accrued, if and
only if no event changed a delegation that had rewards and that it did not harvest. -/
theorem harvested_iff (c₀ : Chain) (h0 : c₀.Fresh) (hr : Run Next c₀ h c) :
    (h.map harvestedIn).sum + c.held = (h.map accruedIn).sum ↔ Run (Guarded Next Quiet) c₀ h c := by
  have hzero : c₀.held = 0 := by
    rw [held, h0.1]
    rfl
  have hstep : ∀ c e c', Reaches c → Next c e c' → c'.Reaches ∧
      c'.held + harvestedIn e ≤ c.held + accruedIn e ∧
      (c'.held + harvestedIn e = c.held + accruedIn e ↔ c.Quiet e) :=
    fun c e c' hR hn => by
      have hlost := rewards_step hR hn
      refine ⟨hR.next hn, by omega, ?_⟩
      rw [Quiet, ← rewardsIn_eq_zero]
      omega
  rw [← Run.break_even_iff ⟨c₀, [], h0, .nil⟩ hstep hr]
  omega

set_option maxRecDepth 10000 in
/-- A deposit on a validator without rewards, a compound of 4 SCRT from two validators, and a window
closed after it. What accrues then is still held. -/
theorem harvested_iff_compounded : ∃ (c : Chain) (h : List (ChainEvent × Option ExecuteAnswer)),
    (h.map accruedIn).sum = 4500000 ∧ c.held = 500000 ∧
      (h.map harvestedIn).sum + c.held = (h.map accruedIn).sum := by
  have hrun : (devChain.replayIf Quiet [devSeed, devEnter "user" (Uint128.new 100000000) .deposit,
      .accrue "validatortwo" (Uint128.new 3000000), .accrue "validatorone" (Uint128.new 1000000),
      devEnter "keeper" 0 (.compound none), devSend "user" (Uint128.new 5000000),
      .time (devStart + 1000000), devEnter "keeper" 0 .advanceWindow,
      .accrue "validatorone" (Uint128.new 500000)]).map
      (fun r => ((r.2.map accruedIn).sum, r.1.held)) = some (4500000, 500000) := by decide +kernel
  obtain ⟨⟨c, h⟩, hr, hs⟩ := Option.map_eq_some_iff.1 hrun
  rw [Prod.mk.injEq] at hs
  have hquiet := replayIf_ok hr
  exact ⟨c, h, hs.1, hs.2,
    (harvested_iff devChain devChain_fresh (hquiet.mono fun _ _ _ hn => hn.1)).2 hquiet⟩

set_option maxRecDepth 10000 in
/-- 1 SCRT accrues on the seed, and the fourth deposit after it goes to the same validator. A compound
of the whole set then finds nothing. -/
theorem reward_unharvested : ¬ ∀ (c₀ c : Chain) (h : List (ChainEvent × Option ExecuteAnswer)),
    c₀.Fresh → Run Next c₀ h c → (h.map harvestedIn).sum + c.held = (h.map accruedIn).sum := by
  intro hclaim
  have hrun : (devChain.replay [devSeed, .accrue "validatorone" (Uint128.new 1000000),
      devEnter "user" (Uint128.new 10000000) .deposit,
      devEnter "user" (Uint128.new 10000000) .deposit,
      devEnter "user" (Uint128.new 10000000) .deposit,
      devEnter "user" (Uint128.new 10000000) .deposit,
      devEnter "keeper" 0 (.compound (some 10))]).map
      (fun r => ((r.2.map harvestedIn).sum + r.1.held, (r.2.map accruedIn).sum)) =
      some (0, 1000000) := by decide +kernel
  obtain ⟨⟨c, h⟩, hr, hs⟩ := Option.map_eq_some_iff.1 hrun
  rw [Prod.mk.injEq] at hs
  have hlaw := hclaim devChain c h devChain_fresh (replay_ok hr)
  rw [hs.1, hs.2] at hlaw
  exact absurd hlaw (by decide)

end Chain

end LstCore
