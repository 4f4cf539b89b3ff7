import LstCore.Lib.Paging
import LstCore.Proof.Capacity
import LstCore.Proof.Effect
import LstCore.Proof.Paying
import LstCore.Spec.Queries
import Mathlib.Data.List.Intervals

/-!
# What the queries answer

* `queryWindows_eq`: a page of windows is a beginning of what the filter lets through after the
  id the page starts after.
* `queryPendingClaims_eq_ok`: the claims shown to an account are its claims, each with what it is
  worth, and the totals are sums over them.
-/

namespace LstCore

open Lib

variable {st st' : Storage} {state : Option WindowState} {w : UnbondWindow} {env : Env}
  {messages : List CosmosMsg}

/-! ## Window ids -/

theorem closeOpenWindow_ids {closing : Closing} (h : closeOpenWindow env st = .ok (st', closing)) :
    st'.nextWindowId ≤ u64Max := by
  unfold closeOpenWindow at h
  simp only [bind_eq_ok, Prod.exists, pure_eq_ok, Prod.mk.injEq] at h
  obtain ⟨w, -, st₁, used, messages, -, id, st₂, hnext, rfl, -⟩ := h
  have hfit := openNextWindow_iff.1 ⟨_, hnext⟩
  obtain ⟨-, rfl⟩ := openNextWindow_ok hnext
  exact hfit

/-- A call opens no window past the last id there is. -/
theorem Effect.ids {balance : Uint128} {limit : Option ℕ} (hB : Booked st) (hB' : Booked st')
    (h : Effect env balance limit st st' messages) (hfit : st.nextWindowId ≤ u64Max) :
    st'.nextWindowId ≤ u64Max := by
  have hnext : st.nextWindowId = st.openWindow + 1 := hB.shape.next
  have hnext' : st'.nextWindowId = st'.openWindow + 1 := hB'.shape.next
  cases h with
  | idle _ hi _ => rw [hnext', hi.openWindow, ← hnext]; exact hfit
  | closed _ _ _ _ _ _ _ hc _ => exact closeOpenWindow_ids hc
  | marked _ hM _ => rw [hM.frame]; exact hfit
  | paid _ hM hP _ => rw [hP.frame, hM.frame]; exact hfit

theorem Reachable.ids (h : Reachable st) : st.nextWindowId ≤ u64Max := by
  refine (h.inv (P := fun st => Booked st ∧ Slotted st ∧ st.nextWindowId ≤ u64Max) ?_ ?_).2.2
  · intro st hi
    refine ⟨hi.booked, (show Reachable st from ⟨_, [], hi, .nil⟩).slotted, ?_⟩
    obtain ⟨deps, env, info, msg, resp, hok⟩ := hi
    obtain ⟨config, -, -, -, -, -, rfl⟩ := instantiate_ok hok
    show 1 ≤ u64Max
    decide
  · rintro st ⟨call, resp⟩ st' ⟨hB, hS, hfit⟩ hs
    have hB' := (step_refines hB hs).1
    refine ⟨hB', step_slotted hS hB hs, ?_⟩
    cases call with
    | migrate => rw [(migrate_ok hs).1]; exact hfit
    | execute deps env info msg =>
      exact (execute_effect_of hB hS (fun b hb => by rw [hb]; rfl) hs :
        Effect env ((deps.queryBalance env.contract.address st.config.bondedDenom).toOption.getD 0)
          msg.markLimit st st' resp.messages).ids hB hB' hfit

/-! ## Pages of windows -/

/-- Every window a filter lets through, oldest first. -/
def Storage.listed (st : Storage) (state : Option WindowState) : List UnbondWindow :=
  ((List.range st.nextWindowId).filterMap st.windows.lookup).filter (wanted state)

theorem scanWindows_eq {ws : Keymap ℕ UnbondWindow} {limit : ℕ} : ∀ {ids : List ℕ}
    {out : List UnbondWindow}, scanWindows ws state limit out ids =
      out ++ ((ids.filterMap ws.lookup).filter (wanted state)).take (limit - out.length) := by
  intro ids
  induction ids with
  | nil => intro out; simp [scanWindows]
  | cons id ids ih =>
    intro out
    unfold scanWindows
    split
    · rename_i hfull
      rw [Nat.sub_eq_zero_of_le hfull, List.take_zero, List.append_nil]
    · rename_i hroom
      rcases hw : ws.lookup id with _ | w
      · rw [List.filterMap_cons_none (f := fun id => ws.lookup id) hw]
        exact ih
      · rw [List.filterMap_cons_some (f := fun id => ws.lookup id) hw]
        dsimp only
        by_cases hp : wanted state w = true
        · obtain ⟨n, hn⟩ : ∃ n, limit - out.length = n + 1 := ⟨limit - out.length - 1, by omega⟩
          rw [if_pos hp, ih, List.filter_cons_of_pos hp, hn, List.take_succ_cons, List.append_assoc,
            List.length_append, List.length_singleton, List.singleton_append]
          congr 3
          omega
        · rw [if_neg hp, ih, List.filter_cons_of_neg hp]

theorem wanted_some {s : WindowState} : wanted (some s) w = true ↔ w.state = s := by
  simp only [wanted, beq_iff_eq]
  exact eq_comm

theorem Booked.mem_listed (hB : Booked st) :
    w ∈ st.listed state ↔ st.windows.lookup w.id = some w ∧ wanted state w = true := by
  unfold Storage.listed
  rw [List.mem_filter, List.mem_filterMap]
  refine and_congr_left fun _ => ⟨?_, fun hw => ⟨w.id, ?_, hw⟩⟩
  · rintro ⟨id, -, hw⟩
    rwa [hB.shape.keyed id w hw]
  · exact List.mem_range.2 (hB.shape.lt_next hw)

/-- The listing is in the order of the ids. -/
theorem Booked.listed_sorted (hB : Booked st) :
    (st.listed state).Pairwise fun v w => v.id < w.id := by
  refine List.Pairwise.filter _ ?_
  rw [List.pairwise_filterMap]
  refine List.pairwise_lt_range.imp fun {i j} hlt v hv w hw => ?_
  rwa [hB.shape.keyed i v hv, hB.shape.keyed j w hw]

theorem Booked.listed_ids (hB : Booked st) : (st.listed none).map (·.id) = List.range st.nextWindowId := by
  have hall : (st.listed none) = (List.range st.nextWindowId).filterMap st.windows.lookup :=
    List.filter_eq_self.2 fun _ _ => rfl
  rw [hall, List.map_filterMap]
  calc (List.range st.nextWindowId).filterMap (fun id => (st.windows.lookup id).map (·.id))
      = (List.range st.nextWindowId).filterMap some := List.filterMap_congr fun id hid => by
        obtain ⟨w, hw⟩ := (hB.shape.mem id).2 (List.mem_range.1 hid)
        have hw : st.windows.lookup id = some w := hw
        rw [hw, Option.map_some, hB.shape.keyed id w hw]
    _ = List.range st.nextWindowId := List.filterMap_some

/-- The oldest windows are those with the smallest ids. -/
theorem Booked.mem_take_listed (hB : Booked st) {n : ℕ} :
    w ∈ (st.listed none).take n ↔ st.windows.lookup w.id = some w ∧ w.id < n := by
  have hat : ∀ (i : ℕ) (hi : i < (st.listed none).length), (st.listed none)[i].id = i := by
    intro i hi
    have hget : ((st.listed none).map (·.id))[i]? = some (st.listed none)[i].id := by simp [hi]
    rw [hB.listed_ids, List.getElem?_range (by
      rw [← List.length_map (f := (·.id)), hB.listed_ids, List.length_range] at hi
      exact hi)] at hget
    exact (Option.some.inj hget).symm
  have hmem : w ∈ st.listed none ↔ st.windows.lookup w.id = some w := by
    rw [hB.mem_listed]
    exact and_iff_left rfl
  rw [← hmem, List.mem_take_iff_getElem]
  constructor
  · rintro ⟨i, hi, rfl⟩
    exact ⟨List.getElem_mem _, by rw [hat]; omega⟩
  · rintro ⟨hw, hlt⟩
    obtain ⟨i, hi, rfl⟩ := List.mem_iff_getElem.1 hw
    rw [hat] at hlt
    exact ⟨i, by omega, rfl⟩

/-- **A page of windows** is a beginning of what the filter lets through after the given id. -/
theorem queryWindows_eq (hB : Booked st) (hfit : st.nextWindowId ≤ u64Max) {after : Option ℕ}
    (hafter : ∀ id ∈ after, id < st.nextWindowId) (limit : Option ℕ) :
    queryWindows state after limit st = (rest (·.id) (st.listed state) after).take
      (min (limit.getD defaultWindowPage) maxWindowPage) := by
  -- the scan starts at the next id, which saturates at no id in use
  have hstart : ∀ w : UnbondWindow, after.elim 0 (satAdd64 · 1) ≤ w.id ↔ ∀ id ∈ after, id < w.id := by
    intro w
    cases after with
    | none => simp
    | some id =>
      have hlt := hafter id rfl
      simp only [Option.elim_some, satAdd64, Option.mem_def, Option.some.injEq, forall_eq']
      omega
  have hids : List.range' (after.elim 0 (satAdd64 · 1))
      (st.nextWindowId - after.elim 0 (satAdd64 · 1)) =
        (List.range st.nextWindowId).filter fun id => after.elim 0 (satAdd64 · 1) ≤ id := by
    rw [← List.Ico.zero_bot, List.Ico.filter_le, Nat.max_eq_right (Nat.zero_le _)]
    rfl
  unfold queryWindows
  simp only [scanWindows_eq, List.nil_append, List.length_nil, Nat.sub_zero, hids]
  rw [rest, Storage.listed, List.filter_comm, List.filterMap_filter]
  congr 2
  rw [List.filter_filterMap]
  congr 1
  funext id
  rcases hw : st.windows.lookup id with _ | w
  · simp
  · have hid : w.id = id := hB.shape.keyed id w hw
    subst hid
    simp only [decide_eq_true_eq, hstart]
    split <;> simp_all [Option.filter]

/-- The first page. -/
theorem queryWindows_first (hB : Booked st) (hfit : st.nextWindowId ≤ u64Max) (limit : ℕ) :
    queryWindows state none (some limit) st = (st.listed state).take (min limit maxWindowPage) := by
  rw [queryWindows_eq hB hfit (by simp), rest, List.filter_eq_self.2 (by simp)]
  rfl

/-! ## Claims shown -/

variable {u : Addr} {id : ℕ} {c : ClaimRecord} {ids : List ℕ}

/-- The claim can be collected now. -/
def UserClaim.ready (c : UserClaim) : Bool := !c.claimed && c.state = .matured

/-- What it adds to what the account is owed. -/
def UserClaim.open (c : UserClaim) : ℕ := if c.claimed = false then c.scrtOwed.val else 0

/-- What it adds to what the account can collect now. -/
def UserClaim.due (c : UserClaim) : ℕ := if c.ready then c.scrtOwed.val else 0

/-- A claim as its holder is shown it, if there is one. -/
def Storage.shown (st : Storage) (u : Addr) (id : ℕ) : Option UserClaim :=
  match st.claims.lookup (u, id), st.windows.lookup id with
  | some claim, some window => some {
      windowId := id
      sharesBurned := claim.sharesBurned
      scrtOwed := (Windows.payoutForClaim window claim.scrtOwed).toOption.getD 0
      maturesAt := window.maturesAt
      state := window.state
      claimed := claim.claimed }
  | _, _ => none

/-- A window never realises more than it owes. -/
theorem Booked.payable_le (hB : Booked st) (hw : st.windows.lookup id = some w) :
    w.payable ≤ w.scrtOwed := by
  have hok : w.OK := hB.shape.ok id w hw
  cases hs : w.state with
  | «open» | unbonding =>
    have hnone := (hok.realised_none (by simp [hs])).1
    rw [UnbondWindow.payable, hnone]
    exact Nat.le_refl _
  | matured | settled => exact (hok.realised_some (by simp [hs])).2

/-- So every claim has a payout, and no more than was promised. -/
theorem Booked.payout (hB : Booked st) (hw : st.windows.lookup id = some w) (c : ClaimRecord) :
    ∃ p : Uint128, Windows.payoutForClaim w c.scrtOwed = .ok p ∧ p.val = worth w c ∧
      worth w c ≤ c.scrtOwed.val := by
  have hle : worth w c ≤ c.scrtOwed.val := share_le (Word.le_def.1 (hB.payable_le hw))
  have hlt := c.scrtOwed.isLt
  exact ⟨⟨worth w c, by omega⟩, payoutForClaim_eq_ok.2 rfl, rfl, hle⟩

theorem Booked.shown_eq (hB : Booked st) (hc : st.claims.lookup (u, id) = some c)
    (hw : st.windows.lookup id = some w) : ∃ p : Uint128, p.val = worth w c ∧
      Windows.payoutForClaim w c.scrtOwed = .ok p ∧
      st.shown u id = some ⟨id, c.sharesBurned, p, w.maturesAt, w.state, c.claimed⟩ := by
  obtain ⟨p, hp, hval, -⟩ := hB.payout hw c
  refine ⟨p, hval, hp, ?_⟩
  unfold Storage.shown
  rw [hc, hw]
  dsimp only
  rw [hp]
  rfl

/-- One turn of the query shows the claim and adds it to the totals. -/
theorem pendingStep_eq_ok (hB : Booked st) {acc acc' : PendingClaims} :
    pendingStep u st acc id = .ok acc' ↔ acc'.claims = acc.claims ++ (st.shown u id).toList ∧
      acc'.totalOwed.val = acc.totalOwed.val + (st.shown u id).elim 0 (·.open) ∧
      acc'.totalClaimableNow.val = acc.totalClaimableNow.val + (st.shown u id).elim 0 (·.due) := by
  obtain ⟨claims, owed, now⟩ := acc
  obtain ⟨claims', owed', now'⟩ := acc'
  have hmk : ∀ (l : List UserClaim) (x y : Uint128),
      (Except.ok ⟨l, x, y⟩ : Exec PendingClaims) = .ok ⟨claims', owed', now'⟩ ↔
        claims' = l ∧ owed'.val = x.val ∧ now'.val = y.val := by
    intro l x y
    rw [Except.ok.injEq, PendingClaims.mk.injEq, Word.ext_iff, Word.ext_iff, eq_comm (a := l),
      eq_comm (a := x.val), eq_comm (a := y.val)]
  rcases hc : st.claims.lookup (u, id) with _ | c
  · simpa [pendingStep, Storage.shown, hc] using hmk claims owed now
  rcases hw : st.windows.lookup id with _ | w
  · simpa [pendingStep, Storage.shown, hc, hw] using hmk claims owed now
  obtain ⟨p, -, hp, hshown⟩ := hB.shown_eq hc hw
  unfold pendingStep
  rw [hshown, hc, hw]
  dsimp only
  rw [hp, ok_bind]
  have hdue : UserClaim.due ⟨id, c.sharesBurned, p, w.maturesAt, w.state, c.claimed⟩ =
      if c.claimed = false ∧ w.state = .matured then p.val else 0 := by
    simp [UserClaim.due, UserClaim.ready]
  simp only [bind_eq_ok, addIf_eq_ok, Option.toList_some, Option.elim_some, UserClaim.open, hdue]
  constructor
  · rintro ⟨a, ha, b, hb, hr⟩
    obtain ⟨hl, ho, hn⟩ := (hmk _ a b).1 hr
    exact ⟨hl, ho.trans ha, hn.trans hb⟩
  · rintro ⟨hl, ho, hn⟩
    exact ⟨owed', ho, now', hn, (hmk _ owed' now').2 ⟨hl, rfl, rfl⟩⟩

/-- What numbers of the claims shown add up to. -/
theorem sum_shown (f : UserClaim → ℕ) : ∀ ids : List ℕ,
    ((ids.filterMap (st.shown u)).map f).sum = (ids.map fun id => (st.shown u id).elim 0 f).sum := by
  intro ids
  induction ids with
  | nil => rfl
  | cons id ids ih =>
    rcases hs : st.shown u id with _ | c
    · rw [List.filterMap_cons_none hs, ih, List.map_cons, List.sum_cons, hs, Option.elim_none,
        Nat.zero_add]
    · rw [List.filterMap_cons_some hs, List.map_cons, List.sum_cons, ih, List.map_cons,
        List.sum_cons, hs, Option.elim_some]

/-- **The loop of the query.** -/
theorem pendingLoop_eq_ok (hB : Booked st) : ∀ {ids : List ℕ} {acc acc' : PendingClaims},
    ids.foldlM (pendingStep u st) acc = .ok acc' ↔
      acc'.claims = acc.claims ++ ids.filterMap (st.shown u) ∧
      acc'.totalOwed.val =
        acc.totalOwed.val + ((ids.filterMap (st.shown u)).map (·.open)).sum ∧
      acc'.totalClaimableNow.val =
        acc.totalClaimableNow.val + ((ids.filterMap (st.shown u)).map (·.due)).sum := by
  intro ids
  simp only [sum_shown]
  induction ids with
  | nil =>
    rintro ⟨l, o, n⟩ ⟨l', o', n'⟩
    simp [Word.ext_iff, eq_comm, pure, Except.pure]
  | cons id ids ih =>
    intro acc acc'
    rw [List.foldlM_cons, bind_eq_ok]
    simp only [pendingStep_eq_ok hB, ih, List.map_cons, List.sum_cons]
    have hlist : (id :: ids).filterMap (st.shown u) =
        (st.shown u id).toList ++ ids.filterMap (st.shown u) := by
      rcases hs : st.shown u id with _ | c
      · rw [List.filterMap_cons_none hs]; rfl
      · rw [List.filterMap_cons_some hs]; rfl
    rw [hlist]
    constructor
    · rintro ⟨mid, ⟨hl, ho, hn⟩, hl', ho', hn'⟩
      exact ⟨by rw [hl', hl, List.append_assoc], by omega, by omega⟩
    · rintro ⟨hl, ho, hn⟩
      -- what the rest adds up to leaves room for the sums so far
      have hoLt := acc'.totalOwed.isLt
      have hnLt := acc'.totalClaimableNow.isLt
      refine ⟨⟨acc.claims ++ (st.shown u id).toList,
        ⟨acc.totalOwed.val + (st.shown u id).elim 0 (·.open), by omega⟩,
        ⟨acc.totalClaimableNow.val + (st.shown u id).elim 0 (·.due), by omega⟩⟩,
        ⟨rfl, rfl, rfl⟩, ?_, ?_, ?_⟩
      · rw [hl, List.append_assoc]
      · dsimp only; omega
      · dsimp only; omega

/-- **What an account is shown**: its claims, and totals over them. -/
theorem queryPendingClaims_eq_ok (hB : Booked st) {answer : PendingClaims} :
    queryPendingClaims u st = .ok answer ↔
      answer.claims = ((st.claimIndex u).filterMap (st.shown u)).insertionSort
        (fun a b => b.windowId ≤ a.windowId) ∧
      answer.totalOwed.val = (((st.claimIndex u).filterMap (st.shown u)).map (·.open)).sum ∧
      answer.totalClaimableNow.val =
        (((st.claimIndex u).filterMap (st.shown u)).map (·.due)).sum := by
  unfold queryPendingClaims
  simp only [bind_eq_ok, pendingLoop_eq_ok hB, pure_eq_ok, List.nil_append, Word.val_zero,
    Nat.zero_add]
  constructor
  · rintro ⟨acc, ⟨hl, ho, hn⟩, rfl⟩
    exact ⟨by rw [hl], ho, hn⟩
  · rintro ⟨hl, ho, hn⟩
    refine ⟨⟨_, answer.totalOwed, answer.totalClaimableNow⟩, ⟨rfl, ho, hn⟩, ?_⟩
    rw [← hl]

end LstCore
