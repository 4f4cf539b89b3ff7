import LstCore.Proof.Cache
import LstCore.Proof.World

/-!
# Prices and the cache

A deposit and a withdrawal request re-read every delegation and the supply before they price. So
two storages that differ in cached figures and in the cursor alone answer them alike
(`pricing_ignores_cache`), and no syncs beforehand change what a user is minted or owed.
-/

namespace LstCore

open Lib

variable {deps : Deps} {env : Env} {info : MessageInfo} {msg : ExecuteMsg} {st st' : Storage}
  {h : List (Call × Response)}

/-- The messages that price. -/
def ExecuteMsg.prices : ExecuteMsg → Bool
  | .deposit => true
  | .receive _ _ _ _ => true
  | _ => false

/-- A call of `Sync`. -/
def Call.isSync : Call → Bool
  | .execute _ _ _ (.sync _) => true
  | _ => false

/-- The same failure, or the same response from storages that then differ in the cursor alone. -/
def SameOutcome : Exec (Storage × Response) → Exec (Storage × Response) → Prop :=
  Alike fun r r' => SameButCursor r.1 r'.1 ∧ r.2 = r'.2

theorem executeDeposit_alike (h : SameButCache st st') :
    SameOutcome (executeDeposit deps env info st) (executeDeposit deps env info st') := by
  unfold executeDeposit
  refine (acceptDeposit_alike h).bind ?_
  rintro ⟨s, booked⟩ ⟨s', booked'⟩ ⟨hs, he⟩
  obtain rfl : booked = booked' := he
  -- the close that may ride along starts from storages that differ in the cursor alone
  refine (closeWindowIfOverdue_alike hs).bind ?_
  rintro ⟨t, closing⟩ ⟨t', closing'⟩ ⟨ht, hc⟩
  obtain rfl : closing = closing' := hc
  exact .pure ⟨ht, rfl⟩

theorem executeReceive_alike {fromAddr : String} {amount : Uint128} {hook : Option Binary}
    (h : SameButCache st st') : SameOutcome (executeReceive deps env info fromAddr amount hook st)
      (executeReceive deps env info fromAddr amount hook st') := by
  have hopen : st'.openWindow = st.openWindow := (congrArg Storage.openWindow h).symm
  unfold executeReceive
  rw [hopen]
  refine (requestWithdrawal_alike h).bind ?_
  rintro ⟨s, joined⟩ ⟨s', joined'⟩ ⟨hs, he⟩
  obtain rfl : joined = joined' := he
  refine (closeWindowIfOverdue_alike hs).bind ?_
  rintro ⟨t, closing⟩ ⟨t', closing'⟩ ⟨ht, hc⟩
  obtain rfl : closing = closing' := hc
  obtain ⟨cursor, rfl⟩ := SameButCursor.eq ht
  exact .pure ⟨rfl, rfl⟩

/-- A sync, complete or not, changes cached figures and the cursor alone. -/
theorem sync_sameButCache {e : Call × Response} (hs : Step st e st') (he : e.1.isSync = true) :
    SameButCache st st' := by
  obtain ⟨call, resp⟩ := e
  match call, he with
  | .execute deps env info (.sync limit), _ =>
    obtain ⟨s, rfl, -⟩ := executeSync_ok hs
    have hset : s.next.validators.map (·.uncached) = st.validators.map (·.uncached) :=
      map_withPage (by simp [Function.comp_def, readEntry, ValidatorEntry.uncached])
    unfold SameButCache Storage.uncached
    rw [hset]
    rfl

/-- **Prices and the cache.** A deposit or a request has the same outcome from two storages that
differ in cached figures and in the cursor alone, given the same answers of the chain: the same
failure, or the same shares minted or SCRT owed, the same messages, and storages that differ in
the cursor alone. So it has the same outcome before and after any syncs. -/
theorem pricing_ignores_cache (hp : msg.prices = true) :
    (∀ st st', SameButCache st st' →
      SameOutcome (execute deps env info msg st) (execute deps env info msg st')) ∧
    (∀ st h st', Run Step st h st' → (∀ e ∈ h, e.1.isSync = true) →
      SameOutcome (execute deps env info msg st) (execute deps env info msg st')) := by
  have hstep : ∀ st st', SameButCache st st' →
      SameOutcome (execute deps env info msg st) (execute deps env info msg st') := by
    intro st st' h
    cases msg with
    | deposit => exact executeDeposit_alike h
    | receive sender fromAddr amount hook => exact executeReceive_alike h
    | _ => cases hp
  refine ⟨hstep, fun st h st' hr hsync => hstep st st' ?_⟩
  refine hr.inv_of_mem (P := SameButCache st) rfl fun s e t he hst ht => ?_
  exact hst.trans (sync_sameButCache ht (hsync e he))

/-- What the chain reports once both validators have been slashed by a half. -/
def devHalvedStake : Deps := devView (Uint128.new 110000000)
  [("validatorone", Uint128.new 5000000, 0), ("validatortwo", Uint128.new 50000000, 0)]

/-- The shares that a deposit of 11 SCRT mints, from a storage of the contract. -/
def devMinted (w : World) (st : Storage) : Option Uint128 :=
  (execute (w.deps devHalvedStake (Uint128.new 11000000)) w.env ⟨"user", [⟨"uscrt", Uint128.new 11000000⟩]⟩
    .deposit st).toOption.bind fun r =>
      match r.2.data with
      | some (.deposit _ shares) => some shares
      | _ => none

set_option maxRecDepth 10000 in
/-- A slashing by a half that the cache has not seen doubles what a deposit mints, and it does
after a partial sync that has seen half of it too. -/
theorem pricing_ignores_cache_slashed : ∃ (w : World) (st : Storage), Reachable w.store ∧
    w.store.totals.totalBonded.val = 110000000 ∧ st.totals.totalBonded.val = 105000000 ∧
    devMinted w w.store = some (Uint128.new 22000000) ∧
    SameOutcome
      (execute (w.deps devHalvedStake (Uint128.new 11000000)) w.env
        ⟨"user", [⟨"uscrt", Uint128.new 11000000⟩]⟩ .deposit w.store)
      (execute (w.deps devHalvedStake (Uint128.new 11000000)) w.env
        ⟨"user", [⟨"uscrt", Uint128.new 11000000⟩]⟩ .deposit st) := by
  have hrun : ([devBootstrap, devDeposit].foldlM World.step devWorld).map (fun w =>
      (w.store.totals.totalBonded.val, devMinted w w.store,
        (execute (w.deps devHalvedStake 0) w.env ⟨"keeper", []⟩ (.sync (some 1)) w.store).toOption.map
          fun r => r.1.totals.totalBonded.val)) =
      some (110000000, some (Uint128.new 22000000), some 105000000) := by decide +kernel
  obtain ⟨w, hw, hs⟩ := Option.map_eq_some_iff.1 hrun
  simp only [Prod.mk.injEq, Option.map_eq_some_iff, Prod.exists] at hs
  obtain ⟨hbonded, hminted, st, resp, hsync, hpartial⟩ := hs
  have hstep : Step w.store (.execute (w.deps devHalvedStake 0) w.env ⟨"keeper", []⟩ (.sync (some 1)), resp)
      st := toOption_eq_some.1 hsync
  refine ⟨w, st, World.replay_reachable devWorld_fresh hw, hbonded, hpartial, hminted, ?_⟩
  exact (pricing_ignores_cache rfl).2 w.store _ st (.single hstep) (by simp [Call.isSync])

end LstCore
