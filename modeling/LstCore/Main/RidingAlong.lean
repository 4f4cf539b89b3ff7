import LstCore.Main.Advancing
import LstCore.Main.CacheFree
import LstCore.Main.Planning
import LstCore.Proof.Config

/-!
# The close that rides along

A deposit or a request closes the open window on its way past, when that is overdue. This comes to
the operation alone, followed by `AdvanceWindow` where that would succeed (`thenAdvance`), and it
does so exactly when the arithmetic of the close stays in range (`riding_along_iff`): a want of
capacity is looked for beforehand and waits for the next caller, an overflow is not.

* `withoutClose`: the operation alone; at what time it comes changes a stamp (`withoutClose_at`).
* `closeWindowIfOverdue_iff`: when the close comes to an `AdvanceWindow` or to nothing.
-/

namespace LstCore

open Lib

variable {deps : Deps} {env : Env} {info : MessageInfo} {msg : ExecuteMsg} {st st' : Storage}
  {resp : Response} {w : UnbondWindow}

/-! ## The operation alone -/

/-- A deposit or a request, less the close that rides along with it. -/
def withoutClose (deps : Deps) (env : Env) (info : MessageInfo) :
    ExecuteMsg → Storage → Exec (Storage × Response)
  | .deposit, st => do
    let (st, deposit, shares, messages) ← acceptDeposit deps env info st
    pure (st, ⟨messages, some (.deposit deposit shares)⟩)
  | .receive _ fromAddr amount hook, st => do
    let windowId := st.openWindow
    let (st, window, owed, token) ← requestWithdrawal deps env info fromAddr amount hook st
    pure (st, ⟨[.token token (.burn amount none)],
      some (.unbond windowId amount owed
        (satAdd64 window.closesAt st.config.params.unbondingPeriodSecs))⟩)
  | msg, st => execute deps env info msg st

/-- Followed by `AdvanceWindow` in the same block, if that succeeds. -/
def thenAdvance (env : Env) (r : Storage × Response) : Storage × Response :=
  match executeAdvanceWindow env r.1 with
  | .ok (st, resp) => (st, ⟨r.2.messages ++ resp.messages, r.2.data⟩)
  | .error _ => r

/-- The operation, then its close. -/
def andClose (env : Env) (r : Storage × Response) : Exec (Storage × Response) :=
  (closeWindowIfOverdue env r.1).map fun s => (s.1, ⟨r.2.messages ++ s.2, r.2.data⟩)

theorem withoutClose_ok (hp : msg.prices = true)
    (h : withoutClose deps env info msg st = .ok (st', resp)) : ClosesFrom st st' := by
  cases msg with
  | deposit =>
    simp only [withoutClose, bind_eq_ok, pure_eq_ok, Prod.exists, Prod.mk.injEq] at h
    obtain ⟨_, _, _, _, ha, rfl, -⟩ := h
    exact .deposit ha
  | receive sender fromAddr amount hook =>
    simp only [withoutClose, bind_eq_ok, pure_eq_ok, Prod.exists, Prod.mk.injEq] at h
    obtain ⟨_, _, _, _, hr, rfl, -⟩ := h
    exact .receive hr
  | _ => cases hp

/-- **A deposit or a request** is the operation alone, then the close. -/
theorem execute_eq_andClose (hp : msg.prices = true) :
    execute deps env info msg st = withoutClose deps env info msg st >>= andClose env := by
  cases msg with
  | deposit =>
    show executeDeposit deps env info st = _
    simp only [executeDeposit, withoutClose, bind_assoc, pure_bind]
    refine bind_congr fun ⟨s, deposit, shares, messages⟩ => ?_
    unfold andClose
    rcases closeWindowIfOverdue env s with e | ⟨t, closing⟩ <;> rfl
  | receive sender fromAddr amount hook =>
    show executeReceive deps env info fromAddr amount hook st = _
    simp only [executeReceive, withoutClose, bind_assoc, pure_bind]
    refine bind_congr fun ⟨s, window, owed, token⟩ => ?_
    unfold andClose
    rcases hc : closeWindowIfOverdue env s with e | ⟨t, closing⟩
    · rfl
    · -- the close leaves the unbonding period of the estimate alone
      show Except.ok _ = Except.ok _
      rw [(overdue_settings hc).config]
      rfl
  | _ => cases hp

/-! ## At another time -/

/-- Storages that differ in the time of the last refresh alone. -/
def SameButTime (st st' : Storage) : Prop :=
  st' = { st with totals := { st.totals with lastSyncTime := st'.totals.lastSyncTime } }

theorem SameButTime.eq (h : SameButTime st st') : ∃ time,
    st' = { st with totals := { st.totals with lastSyncTime := time } } := ⟨_, h⟩

theorem sameButTime_iff : SameButTime st st' ↔ SameButStamps Eq (fun _ _ => True) st st' := by
  constructor
  · intro h
    obtain ⟨time, rfl⟩ := h.eq
    exact ⟨_, time, rfl, trivial, rfl⟩
  · rintro ⟨cursor, time, rfl, -, rfl⟩
    rfl

section Time

variable (deps : Deps) (env : Env) (info : MessageInfo) (st : Storage) (now : ℕ)

theorem pricingPool_at (exclude : Uint128) :
    Alike (fun r r' => SameButTime r.1 r'.1 ∧ r.2 = r'.2) (pricingPool deps env exclude st)
      (pricingPool deps { env with time := now } exclude st) := by
  have hrefresh : Alike SameButTime (refreshTotals deps env st)
      (refreshTotals deps { env with time := now } st) := by
    unfold refreshTotals
    exact .ite (.error _) (.after _ fun _ => .after _ fun _ => .after _ fun _ => .after _ fun _ =>
      .pure rfl)
  unfold pricingPool
  refine hrefresh.bind fun s s' hs => ?_
  obtain ⟨time, rfl⟩ := hs.eq
  exact .after (poolTotals deps env s exclude) fun pool => .pure ⟨hs, rfl⟩

theorem pricingPool_stampsAt (exclude : Uint128) :
    Alike (fun r r' => SameButStamps Eq (fun _ _ => True) r.1 r'.1 ∧ r.2 = r'.2)
      (pricingPool deps env exclude st) (pricingPool deps { env with time := now } exclude st) :=
  (pricingPool_at deps env st now exclude).mono fun _ _ hr => ⟨sameButTime_iff.1 hr.1, hr.2⟩

theorem acceptDeposit_at : Alike (fun r r' => SameButTime r.1 r'.1 ∧ r.2 = r'.2)
    (acceptDeposit deps env info st) (acceptDeposit deps { env with time := now } info st) :=
  (acceptDeposit_stamps now rfl fun exclude _ _ => pricingPool_stampsAt deps env st now exclude).mono
    fun _ _ hr => ⟨sameButTime_iff.2 hr.1, hr.2⟩

theorem requestWithdrawal_at (fromAddr : String) (amount : Uint128) (hook : Option Binary) :
    Alike (fun r r' => SameButTime r.1 r'.1 ∧ r.2 = r'.2)
      (requestWithdrawal deps env info fromAddr amount hook st)
      (requestWithdrawal deps { env with time := now } info fromAddr amount hook st) :=
  (requestWithdrawal_stamps now rfl
    fun exclude _ _ => pricingPool_stampsAt deps env st now exclude).mono
      fun _ _ hr => ⟨sameButTime_iff.2 hr.1, hr.2⟩

/-- **At another time the operation alone** fails or answers as it did. -/
theorem withoutClose_at (hp : msg.prices = true) :
    Alike (fun r r' => SameButTime r.1 r'.1 ∧ r.2 = r'.2) (withoutClose deps env info msg st)
      (withoutClose deps { env with time := now } info msg st) := by
  cases msg with
  | deposit =>
    refine (acceptDeposit_at deps env info st now).bind ?_
    rintro ⟨s, booked⟩ ⟨s', booked'⟩ ⟨hs, he⟩
    obtain rfl : booked = booked' := he
    exact .pure ⟨hs, rfl⟩
  | receive sender fromAddr amount hook =>
    refine (requestWithdrawal_at deps env info st now fromAddr amount hook).bind ?_
    rintro ⟨s, joined⟩ ⟨s', joined'⟩ ⟨hs, he⟩
    obtain ⟨time, rfl⟩ := SameButTime.eq hs
    obtain rfl : joined = joined' := he
    exact .pure ⟨hs, rfl⟩
  | _ => cases hp

end Time

/-! ## The close -/

theorem executeAdvanceWindow_eq (hw : st.windows.lookup st.openWindow = some w)
    (hopen : w.state = .open) (hdue : w.closesAt ≤ env.time) :
    executeAdvanceWindow env st = (closeOpenWindow env st).map fun r =>
      (r.1, ⟨r.2.messages, some (.advanceWindow r.2.closedId r.2.nextId r.2.undelegated)⟩) := by
  unfold executeAdvanceWindow
  rw [loadWindow_eq_ok.2 hw, ok_bind, assertClosable_eq_ok.2 ⟨hopen, hdue⟩, ok_bind]
  rcases closeOpenWindow env st with e | ⟨s, closing⟩ <;> rfl

/-- A window that is not due stays open, whoever asks. -/
theorem closeWindowIfOverdue_early (hw : st.windows.lookup st.openWindow = some w)
    (hdue : ¬ w.closesAt ≤ env.time) : closeWindowIfOverdue env st = .ok (st, []) ∧
      ∃ e, executeAdvanceWindow env st = .error e := by
  have hearly : ∃ e, Windows.assertClosable w env.time = .error e := by
    rcases hcl : Windows.assertClosable w env.time with e | _
    · exact ⟨e, rfl⟩
    · exact absurd (assertClosable_eq_ok.1 hcl).2 hdue
  obtain ⟨e, he⟩ := hearly
  unfold closeWindowIfOverdue executeAdvanceWindow
  rw [loadWindow_eq_ok.2 hw]
  simp only [ok_bind, he]
  exact ⟨rfl, e, rfl⟩

/-- Nor is one closed whose undelegation cannot be placed. -/
theorem closeWindowIfOverdue_full (hweight : Weighted st.validators)
    (hb : total (·.bonded) st.validators < 2 ^ 128)
    (hw : st.windows.lookup st.openWindow = some w) (hopen : w.state = .open)
    (hdue : w.closesAt ≤ env.time)
    (hcap : ¬ w.scrtOwed.val ≤
      capacity st.config.params.maxUnbondEntriesPerValidator st.validators) :
    closeWindowIfOverdue env st = .ok (st, []) ∧ ∃ e, executeAdvanceWindow env st = .error e := by
  have hplan := Validators.planUndelegation_error hweight hb
    (mt (Validators.planUndelegation_iff hweight hb).1 hcap)
  have hne : w.scrtOwed ≠ 0 := fun hz => hcap (by simp [hz])
  have hclose : ¬ ∃ r, closeOpenWindow env st = .ok r := fun hex =>
    hcap ((closeOpenWindow_iff hweight hb hw).1 hex).1
  constructor
  · unfold closeWindowIfOverdue
    rw [loadWindow_eq_ok.2 hw, ok_bind, assertClosable_eq_ok.2 ⟨hopen, hdue⟩]
    simp only [if_neg hne, hplan]
    rfl
  · rw [executeAdvanceWindow_eq hw hopen hdue]
    rcases hc : closeOpenWindow env st with e | r
    · exact ⟨e, rfl⟩
    · exact absurd ⟨r, hc⟩ hclose

/-- One that can be placed is closed, come what may. -/
theorem closeWindowIfOverdue_placed (hweight : Weighted st.validators)
    (hb : total (·.bonded) st.validators < 2 ^ 128)
    (hw : st.windows.lookup st.openWindow = some w) (hopen : w.state = .open)
    (hdue : w.closesAt ≤ env.time)
    (hcap : w.scrtOwed.val ≤
      capacity st.config.params.maxUnbondEntriesPerValidator st.validators) :
    closeWindowIfOverdue env st = (closeOpenWindow env st).map fun r => (r.1, r.2.messages) := by
  obtain ⟨legs, hplan⟩ := (Validators.planUndelegation_iff hweight hb).2 hcap
  unfold closeWindowIfOverdue
  rw [loadWindow_eq_ok.2 hw, ok_bind, assertClosable_eq_ok.2 ⟨hopen, hdue⟩]
  simp only [hplan]
  have hgo : (closeOpenWindow env st >>= fun r => (pure (r.1, r.2.messages) : Exec _)) =
      (closeOpenWindow env st).map fun r => (r.1, r.2.messages) := by
    rcases closeOpenWindow env st with e | r <;> rfl
  by_cases hz : w.scrtOwed = 0
  · simp only [if_pos hz]
    exact hgo
  · simp only [if_neg hz]
    exact hgo

/-- **The close comes to an `AdvanceWindow`, or to nothing where that fails**, exactly when one that
can be placed stays in range. -/
theorem andClose_iff (hweight : Weighted st.validators)
    (hb : total (·.bonded) st.validators < 2 ^ 128)
    (hw : st.windows.lookup st.openWindow = some w) (hopen : w.state = .open) :
    andClose env (st, resp) = .ok (thenAdvance env (st, resp)) ↔
      (w.closesAt ≤ env.time → w.scrtOwed.val ≤
        capacity st.config.params.maxUnbondEntriesPerValidator st.validators → InRange st w) := by
  -- a window left open comes to nothing either way
  have hidle : closeWindowIfOverdue env st = .ok (st, []) ∧
      (∃ e, executeAdvanceWindow env st = .error e) →
      andClose env (st, resp) = .ok (thenAdvance env (st, resp)) := by
    rintro ⟨hc, e, he⟩
    unfold andClose thenAdvance
    rw [hc, he]
    simp [Except.map]
  by_cases hdue : w.closesAt ≤ env.time
  · by_cases hcap : w.scrtOwed.val ≤
        capacity st.config.params.maxUnbondEntriesPerValidator st.validators
    · have hrange : InRange st w ↔ ∃ r, closeOpenWindow env st = .ok r := by
        rw [closeOpenWindow_iff hweight hb hw]
        exact ⟨fun h => ⟨hcap, h.booked, h.id⟩, fun h => ⟨h.2.1, h.2.2⟩⟩
      simp only [hdue, hcap, true_implies, hrange]
      unfold andClose thenAdvance
      rw [closeWindowIfOverdue_placed hweight hb hw hopen hdue hcap,
        executeAdvanceWindow_eq hw hopen hdue]
      rcases closeOpenWindow env st with e | r
      · simp [Except.map]
      · exact iff_of_true rfl ⟨r, rfl⟩
    · exact iff_of_true (hidle (closeWindowIfOverdue_full hweight hb hw hopen hdue hcap))
        fun _ h => absurd h hcap
  · exact iff_of_true (hidle (closeWindowIfOverdue_early hw hdue)) fun h => absurd h hdue

/-! ## Riding along -/

/-- **A close that rides along** shows neither in the failure nor in the answer of the message, and
what it leaves is what the operation alone and then `AdvanceWindow` would leave. -/
structure RidesAlong (deps : Deps) (env : Env) (info : MessageInfo) (msg : ExecuteMsg)
    (st : Storage) : Prop where
  answer : ∀ now, (¬ ∃ w, Overdue { env with time := now } st w) →
    (execute deps { env with time := now } info msg st).map (·.2.data) =
      (execute deps env info msg st).map (·.2.data)
  outcome : execute deps env info msg st =
    (withoutClose deps env info msg st).map (thenAdvance env)

/-- Where the operation alone leaves a window that is due and that the free slots cover, closing it
stays in range. -/
def CloseFits (deps : Deps) (env : Env) (info : MessageInfo) (msg : ExecuteMsg) (st : Storage) :
    Prop :=
  ∀ st₁ resp w, withoutClose deps env info msg st = .ok (st₁, resp) → Overdue env st₁ w →
    w.scrtOwed.val ≤ capacity st₁.config.params.maxUnbondEntriesPerValidator st₁.validators →
    InRange st₁ w

/-- The operation leaves the open window open, and its closing time alone. -/
theorem ClosesFrom.openWindow_lookup (h : ClosesFrom st st') (hB : Booked st) :
    ∃ w w', st.windows.lookup st.openWindow = some w ∧
      st'.windows.lookup st'.openWindow = some w' ∧ w'.state = .open ∧ w'.closesAt = w.closesAt := by
  obtain ⟨w, hw, hopen⟩ := hB.shape.exists_open
  cases h with
  | advance => exact ⟨w, w, hw, hw, hopen, rfl⟩
  | deposit h =>
    obtain ⟨d, rfl, -⟩ := acceptDeposit_ok h
    have hq : d.next.queue = st.queue := d.still.queue
    exact ⟨w, w, hw, (congrArg (fun q => q.windows.lookup q.openWindow) hq).trans hw, hopen, rfl⟩
  | receive h =>
    obtain ⟨st₁, hs, -, hj⟩ := requestWithdrawal_join h
    obtain ⟨u, oo, -, hstep, -⟩ := joinWindow_ok hj
    rw [hs.queue] at hstep
    obtain ⟨w', sb, so, hw', hopen', -, hid, hput⟩ := hstep.join_windows
    refine ⟨w', w'.joined sb so, hw', ?_, hopen', rfl⟩
    show st'.queue.windows.lookup st'.queue.openWindow = _
    rw [hid, hput, Keymap.lookup_put, if_pos rfl]

theorem thenAdvance_data (env : Env) (r : Storage × Response) :
    (thenAdvance env r).2.data = r.2.data := by
  unfold thenAdvance
  split <;> rfl

/-- **Riding along equals calling it**, exactly when the arithmetic of the close stays in range. -/
theorem riding_along_iff (h : Reachable st) (hp : msg.prices = true) :
    RidesAlong deps env info msg st ↔ CloseFits deps env info msg st := by
  rcases hx : withoutClose deps env info msg st with e | ⟨s, resp⟩
  · -- an operation that fails, fails at any time
    have hfail : ∀ now, execute deps { env with time := now } info msg st = .error e := fun now => by
      have hat := withoutClose_at deps env info st now hp
      rw [hx] at hat
      rw [execute_eq_andClose hp, hat.of_error]
      rfl
    have hnow : execute deps env info msg st = .error e := hfail env.time
    refine iff_of_true ⟨fun now _ => by rw [hfail now, hnow], by rw [hnow, hx]; rfl⟩ ?_
    intro st₁ resp w hok
    rw [hx] at hok
    cases hok
  · have hc := withoutClose_ok hp hx
    have hweight : Weighted s.validators := h.weighted.of_roster hc.unmoved.steady.roster
    have hb := (h.mirrored.closesFrom hc).total_lt
    obtain ⟨w₀, w, hw₀, hw, hopen, hcloses⟩ := hc.openWindow_lookup h.booked
    have hexec : execute deps env info msg st = andClose env (s, resp) := by
      rw [execute_eq_andClose hp, hx]
      rfl
    have hfits : CloseFits deps env info msg st ↔ (w.closesAt ≤ env.time → w.scrtOwed.val ≤
        capacity s.config.params.maxUnbondEntriesPerValidator s.validators → InRange s w) := by
      constructor
      · exact fun hf hdue => hf s resp w hx ⟨hw, hdue⟩
      · rintro hf st₁ resp' w' hok ⟨hw', hdue⟩
        rw [hx] at hok
        cases hok
        rw [hw] at hw'
        cases hw'
        exact hf hdue
    have hclose : andClose env (s, resp) = .ok (thenAdvance env (s, resp)) ↔
        (w.closesAt ≤ env.time → w.scrtOwed.val ≤
          capacity s.config.params.maxUnbondEntriesPerValidator s.validators → InRange s w) :=
      andClose_iff hweight hb hw hopen
    rw [hfits, ← hclose, ← hexec]
    constructor
    · intro hr
      have hout := hr.outcome
      rwa [hx] at hout
    · intro hout
      refine ⟨fun now hearly => ?_, by rw [hout, hx]; rfl⟩
      -- before the closing time nothing is closed, and the operation answers as it does now
      have hat := withoutClose_at deps env info st now hp
      rw [hx] at hat
      obtain ⟨⟨s', resp'⟩, hx', hsame, hresp⟩ := hat.of_ok
      obtain rfl : resp = resp' := hresp
      have hw' : s'.windows.lookup s'.openWindow = some w := by
        obtain ⟨time, rfl⟩ := SameButTime.eq hsame
        exact hw
      have hdue : ¬ w.closesAt ≤ now := fun hdue => hearly ⟨w₀, hw₀, hcloses ▸ hdue⟩
      have hopenAt : closeWindowIfOverdue { env with time := now } s' = .ok (s', []) :=
        (closeWindowIfOverdue_early hw' hdue).1
      have hthen : execute deps { env with time := now } info msg st =
          andClose { env with time := now } (s', resp) := by
        rw [execute_eq_andClose hp, hx']
        rfl
      rw [hthen, andClose, hopenAt, hout]
      exact congrArg Except.ok (thenAdvance_data env (s, resp)).symm

/-- What the chain reports of a deployment that owes 40 SCRT to its first window. -/
def devOwing : Deps := devView (Uint128.new 70000000)
  [("validatorone", Uint128.new 10000000, 0), ("validatortwo", Uint128.new 100000000, 0)]

/-- What the operation alone leaves of the open window, and whether closing it fits. -/
def devLeft (w : World) (info : MessageInfo) (msg : ExecuteMsg) : Option (Option (Bool × Bool)) :=
  (withoutClose (w.deps devOwing w.balance) w.env info msg w.store).toOption.map fun r =>
    (r.1.windows.lookup r.1.openWindow).map fun u => (decide (u.closesAt ≤ w.now),
      decide (r.1.totals.scrtOwedUnbonding.val + u.scrtOwed.val < 2 ^ 128 ∧
        r.1.nextWindowId + 1 ≤ u64Max))

set_option maxRecDepth 10000 in
/-- A deposit of 5 SCRT finds the window of 40 SCRT overdue. -/
theorem riding_along_deposit : ∃ (w : World) (info : MessageInfo) (st₁ : Storage) (resp : Response)
    (u : UnbondWindow), Reachable w.store ∧
    withoutClose (w.deps devOwing w.balance) w.env info .deposit w.store = .ok (st₁, resp) ∧
    Overdue w.env st₁ u ∧
    RidesAlong (w.deps devOwing w.balance) w.env info .deposit w.store := by
  have hrun : (devFallsDue.foldlM World.step devWorld).map (fun w =>
      devLeft w ⟨"other", [⟨"uscrt", Uint128.new 5000000⟩]⟩ .deposit) =
      some (some (some (true, true))) := by decide +kernel
  obtain ⟨w, hw, hs⟩ := Option.map_eq_some_iff.1 hrun
  obtain ⟨⟨st₁, resp⟩, hx, hs⟩ := Option.map_eq_some_iff.1 hs
  obtain ⟨u, hu, hs⟩ := Option.map_eq_some_iff.1 hs
  simp only [Prod.mk.injEq, decide_eq_true_eq] at hs
  obtain ⟨hdue, hfit, hid⟩ := hs
  have hx := toOption_eq_some.1 hx
  have hr := World.replay_reachable devWorld_fresh hw
  refine ⟨w, _, st₁, resp, u, hr, hx, ⟨hu, hdue⟩, (riding_along_iff hr rfl).2 ?_⟩
  intro st₂ resp' u' hx' ho _
  rw [hx] at hx'
  cases hx'
  have hlookup := ho.lookup
  rw [hu] at hlookup
  cases hlookup
  exact ⟨fun _ => hfit, hid⟩

/-! ## A liability that overflows -/

/-- A chain that reports 2^128 - 2^120 with the second validator. -/
def devHuge : Deps := devView (Uint128.new 110000000)
  [("validatorone", Uint128.new 10000000, 0),
    ("validatortwo", Uint128.new (2 ^ 128 - 2 ^ 120), 0)]

/-- The user sends all shares back while the chain reports this, and the window closes; the user
deposits once more, and the second window falls due. -/
def devTwice : List Event :=
  [devBootstrap, devDeposit, devTx devHuge "token" 0 (devUnbond "user" (Uint128.new 100000000)),
    .time (devStart + 5 * 86400), devTx devHuge "keeper" 0 .advanceWindow, devDeposit,
    .time (devStart + 10 * 86400)]

/-- Whether the message succeeds in a world, and whether it does alone. -/
def devRides (w : World) (view : Deps) (info : MessageInfo) (msg : ExecuteMsg) : Bool × Bool :=
  ((execute (w.deps view w.balance) w.env info msg w.store).toOption.isSome,
    (withoutClose (w.deps view w.balance) w.env info msg w.store).toOption.isSome)

set_option maxRecDepth 10000 in
/-- What both windows owe together does not fit 128 bits: the request is refused for the sake of
the close, and alone it would not be. -/
theorem ride_along_overflows : ¬ ∀ (deps : Deps) (env : Env) (info : MessageInfo) (msg : ExecuteMsg)
    (st : Storage), Reachable st → msg.prices = true → RidesAlong deps env info msg st := by
  have hrun : (devTwice.foldlM World.step devWorld).map (fun w => devRides w devHuge ⟨"token", []⟩
      (devUnbond "user" (Uint128.new 100000000))) = some (false, true) := by decide +kernel
  obtain ⟨w, hw, hs⟩ := Option.map_eq_some_iff.1 hrun
  obtain ⟨hfails, halone⟩ := Prod.mk.inj hs
  intro hall
  have hout := (hall (w.deps devHuge w.balance) w.env ⟨"token", []⟩
    (devUnbond "user" (Uint128.new 100000000)) w.store
    (World.replay_reachable devWorld_fresh hw) rfl).outcome
  rcases hx : withoutClose (w.deps devHuge w.balance) w.env ⟨"token", []⟩
      (devUnbond "user" (Uint128.new 100000000)) w.store with e | r
  · rw [hx] at halone
    cases halone
  · rw [hout, hx] at hfails
    cases hfails

end LstCore
