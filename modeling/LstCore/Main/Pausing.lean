import LstCore.Lib.Machine
import LstCore.Main.Authority
import LstCore.Proof.Apart
import LstCore.Proof.World

/-!
# What a pause stops

A pause stops deposits and nothing else. A history without deposits goes the same way whether the
contract is paused or not, refusals included; and a paused contract makes of any calls what it makes
of them without the deposits, each of which it refuses (`pause_stops_deposits`).
-/

namespace LstCore

open Lib

variable {deps : Deps} {env : Env} {info : MessageInfo} {msg : ExecuteMsg} {st : Storage} {b : Bool}

/-- The storage under another pause. -/
def Storage.pausedAs (b : Bool) (st : Storage) : Storage :=
  { st with config := { st.config with paused := b } }

/-- Two storages that differ in the pause alone. -/
def SameButPause (st st' : Storage) : Prop := ∃ b, st' = st.pausedAs b

namespace ExecuteMsg

def deposits : ExecuteMsg → Bool
  | .deposit => true
  | _ => false

def setsPause : ExecuteMsg → Bool
  | .setPaused _ => true
  | _ => false

end ExecuteMsg

/-! ## Messages -/

/-- Results from a storage and from the same under another pause. -/
def Repaused {α : Type} (b : Bool) (r r' : Storage × α) : Prop := r'.1 = r.1.pausedAs b ∧ r'.2 = r.2

/-- What does not look at the claims either. -/
theorem Apart.repaused {α : Type} {x x' : Exec (Storage × α)}
    (h : Alike (Apart b st.claims st.claimIndex st) x x') : Alike (Repaused b) x x' := by
  refine h.mono ?_
  rintro _ _ ⟨s, a, hs⟩
  refine ⟨?_, rfl⟩
  rw [← hs.claims, ← hs.index]
  rfl

theorem recordClaim_repaused {claimant : Addr} {id : ℕ} {shares owed : Uint128} :
    Alike (fun s s' => s' = s.pausedAs b) (recordClaim claimant id shares owed st)
      (recordClaim claimant id shares owed (st.pausedAs b)) := by
  unfold recordClaim
  dsimp only [Storage.pausedAs]
  split
  · exact .after _ fun _ => .after _ fun _ => .pure rfl
  · exact .ok rfl

theorem joinWindow_repaused {fromAddr : String} {amount owed : Uint128} : Alike (Repaused b)
    (joinWindow deps fromAddr amount owed st) (joinWindow deps fromAddr amount owed (st.pausedAs b)) := by
  unfold joinWindow
  refine .after (loadWindow st.windows st.openWindow) fun window => .after _ fun _ => .after _ fun _ =>
    .after _ fun _ => .after _ fun claimant => ?_
  refine recordClaim_repaused.bind ?_
  rintro s _ rfl
  exact .after _ fun _ => .pure ⟨rfl, rfl⟩

theorem requestWithdrawal_repaused {fromAddr : String} {amount : Uint128} {hook : Option Binary} :
    Alike (Repaused b) (requestWithdrawal deps env info fromAddr amount hook st)
      (requestWithdrawal deps env info fromAddr amount hook (st.pausedAs b)) := by
  unfold requestWithdrawal priceWithdrawal
  simp only [bind_assoc, pure_bind]
  refine .after _ fun token => .ite (.error _) (.after _ fun _ => .ite (.error _) ?_)
  refine (Apart.repaused (b := b) pricingPool_apart).bind ?_
  rintro ⟨s, pool⟩ ⟨_, _⟩ ⟨hs, hp⟩
  obtain rfl : _ = s.pausedAs b := hs
  obtain rfl : _ = pool := hp
  refine .after _ fun owed => .ite (.error _) (joinWindow_repaused.bind ?_)
  rintro ⟨t, window⟩ ⟨_, _⟩ ⟨ht, hw⟩
  obtain rfl : _ = t.pausedAs b := ht
  obtain rfl : _ = window := hw
  exact .pure ⟨rfl, rfl⟩

theorem executeReceive_repaused {fromAddr : String} {amount : Uint128} {hook : Option Binary} :
    Alike (Repaused b) (executeReceive deps env info fromAddr amount hook st)
      (executeReceive deps env info fromAddr amount hook (st.pausedAs b)) := by
  unfold executeReceive
  refine requestWithdrawal_repaused.bind ?_
  rintro ⟨s, r⟩ ⟨_, _⟩ ⟨hs, hr⟩
  obtain rfl : _ = s.pausedAs b := hs
  obtain rfl : _ = r := hr
  refine (Apart.repaused (b := b) closeWindowIfOverdue_apart).bind ?_
  rintro ⟨t, closing⟩ ⟨_, _⟩ ⟨ht, hc⟩
  obtain rfl : _ = t.pausedAs b := ht
  obtain rfl : _ = closing := hc
  exact .pure ⟨rfl, rfl⟩

theorem executeClaimMatured_repaused {windowIds : Option (List ℕ)} : Alike (Repaused b)
    (executeClaimMatured deps env info windowIds st)
    (executeClaimMatured deps env info windowIds (st.pausedAs b)) := by
  unfold executeClaimMatured
  refine (Apart.repaused (b := b) matureDueWindows_apart).bind ?_
  rintro ⟨s, matured⟩ ⟨_, _⟩ ⟨hs, -⟩
  obtain rfl : _ = s.pausedAs b := hs
  refine .after _ fun acc => .ite (.error _) (.pure ⟨?_, rfl⟩)
  unfold pruneSettledWindows
  split <;> rfl

/-- **No message but a deposit looks at the pause**, and none but `SetPaused` changes it. -/
theorem execute_repaused (hd : msg.deposits = false) (hs : msg.setsPause = false) :
    Alike (Repaused b) (execute deps env info msg st) (execute deps env info msg (st.pausedAs b)) := by
  cases msg with
  | deposit => cases hd
  | setPaused p => cases hs
  | receive sender fromAddr amount hook => exact executeReceive_repaused
  | claimMatured windowIds => exact executeClaimMatured_repaused
  | advanceWindow => exact Apart.repaused executeAdvanceWindow_apart
  | collectMatured limit => exact Apart.repaused executeCollectMatured_apart
  | compound limit => exact Apart.repaused executeCompound_apart
  | sync limit => exact Apart.repaused executeSync_apart
  | manager m => exact Apart.repaused executeManager_apart
  | bootstrap address codeHash => exact Apart.repaused executeBootstrap_apart

/-- A call, upgrades included. -/
theorem call_repaused {c : Call} (hd : c.sends (·.deposits) = false)
    (hs : c.sends (·.setsPause) = false) : Alike (Repaused b) (c.run st) (c.run (st.pausedAs b)) := by
  cases c with
  | execute deps env info msg => exact execute_repaused hd hs
  | migrate => exact Apart.repaused migrate_apart

/-- Whatever the call sets the pause to. -/
theorem call_sameButPause {c : Call} {st' : Storage} (hst : SameButPause st st')
    (hd : c.sends (·.deposits) = false) :
    Alike (fun r r' => SameButPause r.1 r'.1 ∧ r.2 = r'.2) (c.run st) (c.run st') := by
  obtain ⟨b, rfl⟩ := hst
  cases hs : c.sends (·.setsPause) with
  | false => exact (call_repaused hd hs).mono fun r r' hr => ⟨⟨b, hr.1⟩, hr.2.symm⟩
  | true =>
    obtain ⟨deps, env, info, p, rfl⟩ : ∃ deps env info p, c = .execute deps env info (.setPaused p) := by
      cases c with
      | migrate => cases hs
      | execute deps env info msg =>
        cases msg with
        | setPaused p => exact ⟨deps, env, info, p, rfl⟩
        | _ => cases hs
    unfold Call.run execute executeSetPaused
    exact .ite (.error _) (.ok ⟨⟨p, rfl⟩, rfl⟩)

/-- A storage under its own pause is that storage, so whatever does not look at it keeps it. -/
theorem call_keeps_pause {c : Call} {r : Storage × Response} (hd : c.sends (·.deposits) = false)
    (hs : c.sends (·.setsPause) = false) (h : c.run st = .ok r) :
    r.1.config.paused = st.config.paused := by
  have halike : Alike (Repaused st.config.paused) (c.run st)
      (c.run (st.pausedAs st.config.paused)) := call_repaused hd hs
  rw [h, show c.run (st.pausedAs st.config.paused) = .ok r from h] at halike
  obtain ⟨r', hr', hst, -⟩ := halike.of_ok
  obtain rfl : r = r' := Except.ok.inj hr'
  exact congrArg (·.config.paused) hst

/-! ## Histories -/

/-- A paused contract refuses a deposit before it looks at anything. -/
theorem attempt_deposit {c : Call} (hp : st.config.paused = true) (hd : c.sends (·.deposits) = true) :
    attempt Call.run st c = (st, .error (.err .paused)) := by
  obtain ⟨deps, env, info, rfl⟩ : ∃ deps env info, c = .execute deps env info .deposit := by
    cases c with
    | migrate => cases hd
    | execute deps env info msg =>
      cases msg with
      | deposit => exact ⟨deps, env, info, rfl⟩
      | _ => cases hd
  have hrun : (Call.execute deps env info .deposit).run st = .error (.err .paused) := by
    simp only [Call.run, execute, executeDeposit, acceptDeposit, hp, if_true]
    rfl
  rw [attempt, hrun]

/-- Any other call leaves it paused. -/
theorem attempt_keeps_pause {c : Call} (hd : c.sends (·.deposits) = false)
    (hs : c.sends (·.setsPause) = false) :
    (attempt Call.run st c).1.config.paused = st.config.paused := by
  unfold attempt
  split
  · rename_i s o h
    exact call_keeps_pause hd hs h
  · rfl

/-- The calls and what a contract answers to each. -/
def transcript (st : Storage) (calls : List Call) : List (Call × Exec Response) :=
  calls.zip (attempts Call.run st calls).2

theorem transcript_cons (c : Call) (calls : List Call) : transcript st (c :: calls) =
    (c, (attempt Call.run st c).2) :: transcript (attempt Call.run st c).1 calls := rfl

/-- A paused contract and the same calls without the deposits, on a contract that may not be. -/
theorem transcript_paused : ∀ (calls : List Call) {st st' : Storage}, SameButPause st st' →
    st.config.paused = true → (∀ c ∈ calls, c.sends (·.setsPause) = false) →
    SameButPause (attempts Call.run st calls).1
        (attempts Call.run st' (calls.filter fun c => !c.sends (·.deposits))).1 ∧
      ((transcript st calls).filter fun p => !p.1.sends (·.deposits)) =
        transcript st' (calls.filter fun c => !c.sends (·.deposits)) ∧
      ∀ p ∈ transcript st calls, p.1.sends (·.deposits) = true → p.2 = .error (.err .paused)
  | [], _, _, hst, _, _ => ⟨hst, rfl, by simp [transcript]⟩
  | c :: calls, st, st', hst, hp, hs => by
    have hs' := fun d hd => hs d (List.mem_cons_of_mem c hd)
    rw [transcript_cons, attempts_cons]
    cases hd : c.sends (·.deposits) with
    | true =>
      -- a deposit changes nothing
      rw [attempt_deposit hp hd, List.filter_cons_of_neg (by simp [hd]),
        List.filter_cons_of_neg (by simp [hd])]
      obtain ⟨hend, hanswers, hrefused⟩ := transcript_paused calls hst hp hs'
      refine ⟨hend, hanswers, fun p hmem hdep => ?_⟩
      rcases List.mem_cons.1 hmem with rfl | hmem
      · rfl
      · exact hrefused p hmem hdep
    | false =>
      have hcs := hs c List.mem_cons_self
      obtain ⟨hst₁, hanswer⟩ := attempt_alike hst (call_sameButPause hst hd)
      have hp₁ : (attempt Call.run st c).1.config.paused = true :=
        (attempt_keeps_pause hd hcs).trans hp
      rw [List.filter_cons_of_pos (by simp [hd]), List.filter_cons_of_pos (by simp [hd]),
        transcript_cons, attempts_cons]
      obtain ⟨hend, hanswers, hrefused⟩ := transcript_paused calls hst₁ hp₁ hs'
      refine ⟨hend, by rw [hanswer, hanswers], fun p hmem hdep => ?_⟩
      rcases List.mem_cons.1 hmem with rfl | hmem
      · rw [hd] at hdep
        cases hdep
      · exact hrefused p hmem hdep

/-- **What a pause stops.** Two contracts that differ in the pause alone make the same of any calls
without deposits: the same refusals, the same answers, and storages that differ in the pause alone.
And while nobody sets the pause, a paused contract makes of any calls what an open one makes of them
without the deposits, each of which it refuses. -/
theorem pause_stops_deposits {st st' : Storage} (hst : SameButPause st st') (calls : List Call) :
    ((∀ c ∈ calls, c.sends (·.deposits) = false) →
      SameButPause (attempts Call.run st calls).1 (attempts Call.run st' calls).1 ∧
        transcript st calls = transcript st' calls) ∧
    (st.config.paused = true → (∀ c ∈ calls, c.sends (·.setsPause) = false) →
      SameButPause (attempts Call.run st calls).1
          (attempts Call.run st' (calls.filter fun c => !c.sends (·.deposits))).1 ∧
        ((transcript st calls).filter fun p => !p.1.sends (·.deposits)) =
          transcript st' (calls.filter fun c => !c.sends (·.deposits)) ∧
        ∀ p ∈ transcript st calls, p.1.sends (·.deposits) = true → p.2 = .error (.err .paused)) := by
  refine ⟨fun hd => ?_, transcript_paused calls hst⟩
  have hM : List.Forall₂ (fun c d => d = c ∧ c.sends (·.deposits) = false) calls calls :=
    List.forall₂_same.2 fun c hc => ⟨rfl, hd c hc⟩
  have hstep : ∀ s t (c d : Call), SameButPause s t → d = c ∧ c.sends (·.deposits) = false →
      Alike (fun r r' => SameButPause r.1 r'.1 ∧ r.2 = r'.2) (c.run s) (d.run t) := by
    rintro s t c _ hst ⟨rfl, hc⟩
    exact call_sameButPause hst hc
  obtain ⟨hend, hanswers⟩ := attempts_alike hstep hM hst
  exact ⟨hend, by rw [transcript, transcript, hanswers]⟩

/-- A deposit of 11 SCRT, and a request to withdraw 40. -/
def devCalls (w : World) : List Call :=
  [.execute (w.deps devBonded (Uint128.new 11000000)) w.env ⟨"user", [⟨"uscrt", Uint128.new 11000000⟩]⟩
      .deposit,
    .execute (w.deps devBonded 0) w.env ⟨"token", []⟩ (devUnbond "user" (Uint128.new 40000000))]

set_option maxRecDepth 10000 in
/-- Paused, the contract refuses the deposit and takes the request, and stands where it would stand
open after the request alone. -/
theorem pause_stops_deposits_request : ∃ w : World, Reachable w.store ∧
    ((attempts Call.run (w.store.pausedAs true) (devCalls w)).2.map fun a => a.toOption.isSome) =
      [false, true] ∧
    SameButPause (attempts Call.run (w.store.pausedAs true) (devCalls w)).1
      (attempts Call.run w.store ((devCalls w).filter fun c => !c.sends (·.deposits))).1 := by
  have hrun : ([devBootstrap, devDeposit].foldlM World.step devWorld).map (fun w =>
      ((attempts Call.run (w.store.pausedAs true) (devCalls w)).2.map fun a => a.toOption.isSome,
        (devCalls w).all fun c => !c.sends (·.setsPause))) = some ([false, true], true) := by
    decide +kernel
  obtain ⟨w, hw, hs⟩ := Option.map_eq_some_iff.1 hrun
  obtain ⟨hanswers, hset⟩ := Prod.mk.inj hs
  refine ⟨w, World.replay_reachable devWorld_fresh hw, hanswers, ?_⟩
  have hback : SameButPause (w.store.pausedAs true) w.store := ⟨w.store.config.paused, rfl⟩
  exact ((pause_stops_deposits hback (devCalls w)).2 rfl (by simpa using hset)).1

end LstCore
