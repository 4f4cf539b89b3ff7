import LstCore.Lib.Alike
import LstCore.Proof.Frame

/-!
# What the cache is for

* `SameButCache`: two storages that differ in cached figures alone; `SameButCursor`: in the
  cursor alone.
* `refreshTotals_alike`: a refresh makes the former into the latter, once a token is bound.
* `acceptDeposit_alike`, `requestWithdrawal_alike`, `closeWindowIfOverdue_alike`: what follows it
  treats the latter alike.
* `acceptDeposit_stamps`, `requestWithdrawal_stamps`: nor does it look at when a refresh was.
-/

namespace LstCore

open Lib

variable {deps : Deps} {env : Env} {info : MessageInfo} {st st' : Storage}

/-- An entry without its cached figures. -/
def ValidatorEntry.uncached (v : ValidatorEntry) : ValidatorEntry :=
  { v with bonded := 0, pendingRewards := 0 }

/-- A storage without its cached figures and its cursor. -/
def Storage.uncached (st : Storage) : Storage :=
  { st with
    validators := st.validators.map (·.uncached)
    totals := { st.totals with
      totalBonded := 0, pendingRewards := 0, totalSupply := 0, lastSyncTime := 0 }
    syncCursor := 0 }

/-- Two storages that differ in cached figures and in the cursor alone. -/
def SameButCache (st st' : Storage) : Prop := st.uncached = st'.uncached

/-- Two storages that differ in the cursor alone. -/
def SameButCursor (st st' : Storage) : Prop :=
  { st with syncCursor := 0 } = { st' with syncCursor := 0 }

theorem SameButCursor.eq (h : SameButCursor st st') :
    ∃ cursor, st' = { st with syncCursor := cursor } := by
  obtain ⟨_, _, _, _, _, _, _, _, _, _, _⟩ := st
  obtain ⟨_, _, _, _, _, _, cursor, _, _, _, _⟩ := st'
  simp only [SameButCursor, Storage.mk.injEq] at h
  obtain ⟨rfl, rfl, rfl, rfl, rfl, rfl, -, rfl, rfl, rfl, rfl⟩ := h
  exact ⟨cursor, rfl⟩

/-! ## The refresh -/

/-- A re-read takes nothing from the figures it replaces. -/
theorem readDelegation_uncached (contract : Addr) (denom : String) (v : ValidatorEntry) :
    readDelegation deps contract denom v.uncached = readDelegation deps contract denom v := by
  unfold readDelegation ValidatorEntry.uncached
  rcases deps.queryDelegation contract v.address with e | (_ | d) <;> rfl

theorem mapM_read_uncached (contract : Addr) (denom : String) (set : List ValidatorEntry) :
    (set.map (·.uncached)).mapM (readDelegation deps contract denom) =
      set.mapM (readDelegation deps contract denom) := by
  induction set with
  | nil => rfl
  | cons v set ih => rw [List.map_cons, List.mapM_cons, List.mapM_cons, ih, readDelegation_uncached]

/-- **The refresh replaces every cached figure.** -/
theorem refreshTotals_alike {token : ContractInfo} (h : SameButCache st st')
    (htoken : st.config.token = some token) :
    Alike SameButCursor (refreshTotals deps env st) (refreshTotals deps env st') := by
  obtain ⟨config, vs, totals, _, _, _, _, _, _, _, _⟩ := st
  obtain ⟨config', vs', totals', _, _, _, _, _, _, _, _⟩ := st'
  obtain ⟨_, _, _, oo, ou, om, _⟩ := totals
  obtain ⟨_, _, _, _, _, _, _⟩ := totals'
  simp only [SameButCache, Storage.uncached, Storage.mk.injEq, TotalsCache.mk.injEq] at h
  obtain ⟨rfl, hvs, ⟨-, -, -, rfl, rfl, rfl, -⟩, rfl, rfl, rfl, -, rfl, rfl, rfl, rfl⟩ := h
  have hnil : vs = [] ↔ vs' = [] := by
    rw [← List.map_eq_nil_iff (f := (·.uncached)), hvs, List.map_eq_nil_iff]
  have hread : vs.mapM (readDelegation deps env.contract.address config.bondedDenom) =
      vs'.mapM (readDelegation deps env.contract.address config.bondedDenom) := by
    rw [← mapM_read_uncached, hvs, mapM_read_uncached]
  have hconfig : config.token = some token := htoken
  unfold refreshTotals
  simp only [mirrorSupply, hconfig, hnil, hread]
  refine .ite (.error _) (.after _ fun set => .after _ fun tb => .after _ fun pr => .after _ fun ts =>
    .pure rfl)

/-- Once refreshed, the pool is the same. -/
theorem pricingPool_alike {token : ContractInfo} {exclude : Uint128} (h : SameButCache st st')
    (htoken : st.config.token = some token) :
    Alike (fun r r' => SameButCursor r.1 r'.1 ∧ r.2 = r'.2) (pricingPool deps env exclude st)
      (pricingPool deps env exclude st') := by
  unfold pricingPool
  refine (refreshTotals_alike h htoken).bind fun s s' hs => ?_
  obtain ⟨cursor, rfl⟩ := hs.eq
  exact .after (poolTotals deps env s exclude) fun pool => .pure ⟨hs, rfl⟩

/-! ## Closing -/

theorem SameButCursor.fileClosed (h : SameButCursor st st') (id : ℕ)
    (closed : UnbondWindow × Windows.Closure) :
    SameButCursor (st.fileClosed id closed) (st'.fileClosed id closed) := by
  obtain ⟨cursor, rfl⟩ := h.eq
  unfold Storage.fileClosed
  dsimp only
  split <;> rfl

theorem openNextWindow_alike (h : SameButCursor st st') :
    Alike (fun r r' => r.1 = r'.1 ∧ SameButCursor r.2 r'.2) (openNextWindow env st)
      (openNextWindow env st') := by
  obtain ⟨cursor, rfl⟩ := h.eq
  have halloc : Alike (fun r r' => r.1 = r'.1 ∧ SameButCursor r.2 r'.2) (allocWindowId st)
      (allocWindowId { st with syncCursor := cursor }) := .ite (.ok ⟨rfl, rfl⟩) (.error _)
  unfold openNextWindow
  refine halloc.bind ?_
  rintro ⟨id, s⟩ ⟨id', s'⟩ ⟨hid, hs⟩
  obtain ⟨cursor, rfl⟩ := SameButCursor.eq hs
  obtain rfl : id = id' := hid
  exact .pure ⟨rfl, rfl⟩

/-- **A closing** does not look at the cursor. -/
theorem closeOpenWindow_alike (h : SameButCursor st st') :
    Alike (fun r r' => SameButCursor r.1 r'.1 ∧ r.2 = r'.2) (closeOpenWindow env st)
      (closeOpenWindow env st') := by
  obtain ⟨cursor, rfl⟩ := h.eq
  unfold closeOpenWindow
  refine .after (loadWindow st.windows st.openWindow) fun window => ?_
  have hund : Alike (fun r r' => SameButCursor r.1 r'.1 ∧ r.2 = r'.2) (undelegateWindow st window)
      (undelegateWindow { st with syncCursor := cursor } window) := by
    unfold undelegateWindow
    exact .ite (.ok ⟨h, rfl⟩) (.after _ fun legs => .after _ fun acc => .after _ fun ou =>
      .pure ⟨rfl, rfl⟩)
  refine hund.bind ?_
  rintro ⟨s, used, messages⟩ ⟨s', used', messages'⟩ ⟨hs, he⟩
  have hconfig : s'.config = s.config := by
    obtain ⟨cursor, rfl⟩ := SameButCursor.eq hs
    rfl
  obtain ⟨rfl, rfl⟩ := Prod.mk.inj he
  dsimp only
  rw [hconfig]
  refine (openNextWindow_alike (SameButCursor.fileClosed hs _ _)).bind ?_
  rintro ⟨id, t⟩ ⟨id', t'⟩ ⟨hid, ht⟩
  obtain rfl : id = id' := hid
  exact .pure ⟨ht, rfl⟩

/-- Nor does the choice whether to close. -/
theorem closeWindowIfOverdue_alike (h : SameButCursor st st') :
    Alike (fun r r' => SameButCursor r.1 r'.1 ∧ r.2 = r'.2) (closeWindowIfOverdue env st)
      (closeWindowIfOverdue env st') := by
  obtain ⟨cursor, rfl⟩ := h.eq
  unfold closeWindowIfOverdue
  refine .after (loadWindow st.windows st.openWindow) fun window => ?_
  dsimp only
  split
  · exact .pure ⟨h, rfl⟩
  · split
    · exact .error _
    · exact .pure ⟨h, rfl⟩
    · refine (closeOpenWindow_alike h).bind ?_
      rintro ⟨s, closing⟩ ⟨s', closing'⟩ ⟨hs, hc⟩
      obtain rfl : closing = closing' := hc
      exact .pure ⟨hs, rfl⟩

/-! ## Deposits and requests -/

/-- Two storages that differ in the cursor and in the time of the last refresh alone, these related
by `C` and by `T`. -/
def SameButStamps (C T : ℕ → ℕ → Prop) (st st' : Storage) : Prop :=
  ∃ cursor time, C st.syncCursor cursor ∧ T st.totals.lastSyncTime time ∧
    st' = { st with syncCursor := cursor, totals := { st.totals with lastSyncTime := time } }

theorem sameButCursor_iff : SameButCursor st st' ↔ SameButStamps (fun _ _ => True) Eq st st' := by
  constructor
  · intro h
    obtain ⟨cursor, rfl⟩ := h.eq
    exact ⟨cursor, _, trivial, rfl, rfl⟩
  · rintro ⟨cursor, time, -, rfl, rfl⟩
    rfl

section Stamps

variable {C T : ℕ → ℕ → Prop}

theorem SameButStamps.putWindow (h : SameButStamps C T st st') (id : ℕ) (w : UnbondWindow) :
    SameButStamps C T (st.putWindow id w) (st'.putWindow id w) := by
  obtain ⟨cursor, time, hcursor, htime, rfl⟩ := h
  exact ⟨cursor, time, hcursor, htime, rfl⟩

theorem recordClaim_stamps {claimant : Addr} {id : ℕ} {amount owed : Uint128}
    (h : SameButStamps C T st st') :
    Alike (SameButStamps C T) (recordClaim claimant id amount owed st)
      (recordClaim claimant id amount owed st') := by
  obtain ⟨cursor, time, hcursor, htime, rfl⟩ := h
  unfold recordClaim
  dsimp only
  split
  · exact .after _ fun _ => .after _ fun _ => .pure ⟨cursor, time, hcursor, htime, rfl⟩
  · exact .ok ⟨cursor, time, hcursor, htime, rfl⟩

theorem joinWindow_stamps {fromAddr : String} {amount owed : Uint128}
    (h : SameButStamps C T st st') :
    Alike (fun r r' => SameButStamps C T r.1 r'.1 ∧ r.2 = r'.2)
      (joinWindow deps fromAddr amount owed st) (joinWindow deps fromAddr amount owed st') := by
  have hput := h.putWindow
  obtain ⟨cursor, time, -, -, rfl⟩ := h
  unfold joinWindow
  refine .after _ fun window => .after _ fun _ => .after _ fun _ => .after _ fun _ =>
    .after _ fun claimant => (recordClaim_stamps (hput _ _)).bind ?_
  rintro s s' ⟨cursor, time, hcursor, htime, rfl⟩
  exact .after _ fun _ => .pure ⟨⟨cursor, time, hcursor, htime, rfl⟩, rfl⟩

variable (now : ℕ) (hconfig : st'.config = st.config)
  (hpool : ∀ exclude token, st.config.token = some token →
    Alike (fun r r' => SameButStamps C T r.1 r'.1 ∧ r.2 = r'.2) (pricingPool deps env exclude st)
      (pricingPool deps { env with time := now } exclude st'))

include hconfig hpool

/-- A deposit priced alike is booked alike. -/
theorem acceptDeposit_stamps : Alike (fun r r' => SameButStamps C T r.1 r'.1 ∧ r.2 = r'.2)
    (acceptDeposit deps env info st) (acceptDeposit deps { env with time := now } info st') := by
  unfold acceptDeposit
  rw [hconfig]
  refine .ite (.error _) ?_
  -- without a token both fail before they price
  cases htoken : st.config.token with
  | none => simp only [Config.boundToken, htoken]; exact .error _
  | some token =>
    refine .after _ fun _ => .after _ fun deposit => .ite (.error _) ?_
    unfold priceDeposit
    simp only [bind_assoc]
    refine (hpool deposit token htoken).bind ?_
    rintro ⟨s, pool⟩ ⟨s', pool'⟩ ⟨⟨cursor, time, hcursor, htime, hs⟩, hp⟩
    obtain rfl : s' = _ := hs
    obtain rfl : pool = pool' := hp
    refine .after _ fun shares => ?_
    simp only [pure_bind]
    exact .ite (.error _) (.after _ fun _ => .ite (.error _) (.after _ fun _ => .after _ fun _ =>
      .after _ fun _ => .pure ⟨⟨cursor, time, hcursor, htime, rfl⟩, rfl⟩))

/-- So is a request. -/
theorem requestWithdrawal_stamps {fromAddr : String} {amount : Uint128} {msg : Option Binary} :
    Alike (fun r r' => SameButStamps C T r.1 r'.1 ∧ r.2 = r'.2)
      (requestWithdrawal deps env info fromAddr amount msg st)
      (requestWithdrawal deps { env with time := now } info fromAddr amount msg st') := by
  unfold requestWithdrawal
  rw [hconfig]
  cases htoken : st.config.token with
  | none => simp only [Config.boundToken, htoken]; exact .error _
  | some token =>
    refine .after _ fun _ => .ite (.error _) (.after _ fun _ => .ite (.error _) ?_)
    unfold priceWithdrawal
    simp only [bind_assoc]
    refine (hpool 0 token htoken).bind ?_
    rintro ⟨s, pool⟩ ⟨s', pool'⟩ ⟨hs, hp⟩
    obtain rfl : pool = pool' := hp
    refine .after _ fun owed => ?_
    simp only [pure_bind]
    refine .ite (.error _) ((joinWindow_stamps hs).bind ?_)
    rintro ⟨t, window⟩ ⟨t', window'⟩ ⟨ht, hw⟩
    obtain rfl : window = window' := hw
    exact .pure ⟨ht, rfl⟩

end Stamps

theorem pricingPool_stamps (h : SameButCache st st') (exclude : Uint128) (token : ContractInfo)
    (htoken : st.config.token = some token) :
    Alike (fun r r' => SameButStamps (fun _ _ => True) Eq r.1 r'.1 ∧ r.2 = r'.2)
      (pricingPool deps env exclude st) (pricingPool deps env exclude st') :=
  (pricingPool_alike h htoken).mono fun _ _ hr => ⟨sameButCursor_iff.1 hr.1, hr.2⟩

/-- **A deposit looks at nothing cached.** -/
theorem acceptDeposit_alike (h : SameButCache st st') :
    Alike (fun r r' => SameButCursor r.1 r'.1 ∧ r.2 = r'.2) (acceptDeposit deps env info st)
      (acceptDeposit deps env info st') := by
  have hconfig : st'.config = st.config := (congrArg Storage.config h).symm
  exact (acceptDeposit_stamps env.time hconfig (pricingPool_stamps h)).mono fun _ _ hr =>
    ⟨sameButCursor_iff.2 hr.1, hr.2⟩

/-- **Nor does a request.** -/
theorem requestWithdrawal_alike {fromAddr : String} {amount : Uint128} {msg : Option Binary}
    (h : SameButCache st st') :
    Alike (fun r r' => SameButCursor r.1 r'.1 ∧ r.2 = r'.2)
      (requestWithdrawal deps env info fromAddr amount msg st)
      (requestWithdrawal deps env info fromAddr amount msg st') := by
  have hconfig : st'.config = st.config := (congrArg Storage.config h).symm
  exact (requestWithdrawal_stamps env.time hconfig (pricingPool_stamps h)).mono fun _ _ hr =>
    ⟨sameButCursor_iff.2 hr.1, hr.2⟩

end LstCore
