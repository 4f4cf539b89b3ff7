import LstCore.Lib.Alike
import LstCore.Spec.Contract

/-!
# What upkeep does not look at

Who holds which claim matters to requests and to claims alone, and whether deposits are paused to
deposits alone. `Storage.apart` puts other ones in their place. What looks at neither does the same
to both storages (`Apart`): pricing, closing, marking, syncing, compounding, and what the manager
sends.
-/

namespace LstCore

open Lib

variable {deps : Deps} {env : Env} {info : MessageInfo} {st st₁ : Storage} {b : Bool}
  {claims : Keymap (Addr × ℕ) ClaimRecord} {index : Addr → List ℕ}

/-- The storage with another pause and with other claims. -/
def Storage.apart (b : Bool) (claims : Keymap (Addr × ℕ) ClaimRecord) (index : Addr → List ℕ)
    (st : Storage) : Storage :=
  { st with config := { st.config with paused := b }, claims := claims, claimIndex := index }

/-- A storage that still has the pause and the claims of another. -/
structure Keeps (st st₁ : Storage) : Prop where
  claims : st₁.claims = st.claims
  index : st₁.claimIndex = st.claimIndex
  paused : st₁.config.paused = st.config.paused

theorem Keeps.refl (st : Storage) : Keeps st st := ⟨rfl, rfl, rfl⟩

theorem Keeps.trans {st₂ : Storage} (h : Keeps st st₁) (h' : Keeps st₁ st₂) : Keeps st st₂ :=
  ⟨h'.claims.trans h.claims, h'.index.trans h.index, h'.paused.trans h.paused⟩

/-- Results from a storage and from the one with another pause and other claims: they are that
again, and keep what they had. -/
inductive Apart {α : Type} (b : Bool) (claims : Keymap (Addr × ℕ) ClaimRecord)
    (index : Addr → List ℕ) (st : Storage) : Storage × α → Storage × α → Prop
  | mk (s : Storage) (a : α) (h : Keeps st s) : Apart b claims index st (s, a) (s.apart b claims index, a)

/-- What follows such results. -/
theorem Apart.bind {α β : Type} {S : β → β → Prop} {x x' : Exec (Storage × α)}
    {f f' : Storage × α → Exec β} (h : Alike (Apart b claims index st) x x')
    (hf : ∀ s a, Keeps st s → Alike S (f (s, a)) (f' (s.apart b claims index, a))) :
    Alike S (x >>= f) (x' >>= f') := by
  refine Alike.bind h ?_
  rintro _ _ ⟨s, a, hs⟩
  exact hf s a hs

/-! ## Pricing -/

theorem refreshTotals_apart : Alike (fun s s' => s' = s.apart b claims index ∧ Keeps st s)
    (refreshTotals deps env st) (refreshTotals deps env (st.apart b claims index)) := by
  unfold refreshTotals
  exact .ite (.error _) (.after _ fun _ => .after _ fun _ => .after _ fun _ => .after _ fun _ =>
    .pure ⟨rfl, rfl, rfl, rfl⟩)

theorem pricingPool_apart {exclude : Uint128} : Alike (Apart b claims index st)
    (pricingPool deps env exclude st) (pricingPool deps env exclude (st.apart b claims index)) := by
  unfold pricingPool
  refine refreshTotals_apart.bind ?_
  rintro s _ ⟨rfl, hs⟩
  exact .after (poolTotals deps env s exclude) fun pool => .pure (.mk s pool hs)

/-- A deposit looks at the pause, and at no claim. -/
theorem acceptDeposit_apart : Alike (Apart st.config.paused claims index st)
    (acceptDeposit deps env info st)
    (acceptDeposit deps env info (st.apart st.config.paused claims index)) := by
  unfold acceptDeposit priceDeposit
  simp only [bind_assoc, pure_bind]
  refine .ite (.error _) (.after _ fun _ => .after _ fun _ => .ite (.error _) ?_)
  refine Apart.bind pricingPool_apart fun s pool hs => ?_
  exact .after _ fun _ => .ite (.error _) (.after _ fun _ => .ite (.error _) (.after _ fun _ =>
    .after _ fun _ => .after _ fun _ => .pure (.mk _ _ ⟨hs.claims, hs.index, hs.paused⟩)))

/-! ## Closing -/

theorem undelegateWindow_apart {w : UnbondWindow} : Alike (Apart b claims index st)
    (undelegateWindow st w) (undelegateWindow (st.apart b claims index) w) := by
  unfold undelegateWindow
  exact .ite (.ok (.mk _ _ (.refl st))) (.after _ fun _ => .after _ fun _ => .after _ fun _ =>
    .pure (.mk _ _ ⟨rfl, rfl, rfl⟩))

variable (b claims index st) in
theorem fileClosed_apart (id : ℕ) (closed : UnbondWindow × Windows.Closure) :
    (st.apart b claims index).fileClosed id closed = (st.fileClosed id closed).apart b claims index ∧
      Keeps st (st.fileClosed id closed) := by
  unfold Storage.fileClosed
  dsimp only
  split <;> exact ⟨rfl, rfl, rfl, rfl⟩

variable (b claims index env st) in
theorem openNextWindow_apart : Alike
    (fun r r' => ∃ id s, r = (id, s) ∧ r' = (id, s.apart b claims index) ∧ Keeps st s)
    (openNextWindow env st) (openNextWindow env (st.apart b claims index)) := by
  unfold openNextWindow allocWindowId
  by_cases hfits : st.nextWindowId + 1 ≤ u64Max
  · have hfits' : (st.apart b claims index).nextWindowId + 1 ≤ u64Max := hfits
    rw [if_pos hfits, if_pos hfits']
    exact .ok ⟨_, _, rfl, rfl, rfl, rfl, rfl⟩
  · have hfits' : ¬ (st.apart b claims index).nextWindowId + 1 ≤ u64Max := hfits
    rw [if_neg hfits, if_neg hfits']
    exact .error _

theorem closeOpenWindow_apart : Alike (Apart b claims index st)
    (closeOpenWindow env st) (closeOpenWindow env (st.apart b claims index)) := by
  unfold closeOpenWindow
  refine .after (loadWindow st.windows st.openWindow) fun window => ?_
  refine Apart.bind undelegateWindow_apart fun s r hs => ?_
  obtain ⟨hfile, hkeep⟩ := fileClosed_apart s b claims index st.openWindow
    (Windows.close r.1 env.time s.config.params.unbondingPeriodSecs)
  have hnext := openNextWindow_apart env
    (s.fileClosed st.openWindow (Windows.close r.1 env.time s.config.params.unbondingPeriodSecs))
    b claims index
  rw [← hfile] at hnext
  refine hnext.bind ?_
  rintro _ _ ⟨id, t, rfl, rfl, ht⟩
  exact .pure (.mk t _ (hs.trans (hkeep.trans ht)))

theorem closeWindowIfOverdue_apart : Alike (Apart b claims index st)
    (closeWindowIfOverdue env st) (closeWindowIfOverdue env (st.apart b claims index)) := by
  unfold closeWindowIfOverdue
  refine .after (loadWindow st.windows st.openWindow) fun window => ?_
  dsimp only [Storage.apart]
  split
  · exact .pure (.mk st _ (.refl st))
  · split
    · exact .error _
    · exact .pure (.mk st _ (.refl st))
    · exact Apart.bind closeOpenWindow_apart fun s closing hs => .pure (.mk s _ hs)

theorem executeAdvanceWindow_apart : Alike (Apart b claims index st)
    (executeAdvanceWindow env st) (executeAdvanceWindow env (st.apart b claims index)) := by
  unfold executeAdvanceWindow
  refine .after (loadWindow st.windows st.openWindow) fun window => .after _ fun _ => ?_
  exact Apart.bind closeOpenWindow_apart fun s closing hs => .pure (.mk s _ hs)

/-! ## Marking -/

theorem matureDueWindows_apart {limit : ℕ} : Alike (Apart b claims index st)
    (matureDueWindows deps env limit st) (matureDueWindows deps env limit (st.apart b claims index)) := by
  unfold matureDueWindows
  exact .after _ fun _ => .after _ fun _ => .after _ fun acc => .ite (.pure (.mk st _ (.refl st)))
    (.after _ fun _ => .pure (.mk _ _ ⟨rfl, rfl, rfl⟩))

theorem executeCollectMatured_apart {limit : Option ℕ} : Alike (Apart b claims index st)
    (executeCollectMatured deps env limit st)
    (executeCollectMatured deps env limit (st.apart b claims index)) := by
  unfold executeCollectMatured
  exact Apart.bind matureDueWindows_apart fun s matured hs => .pure (.mk s _ hs)

/-! ## Upkeep and the manager -/

theorem executeSync_apart {limit : Option ℕ} : Alike (Apart b claims index st)
    (executeSync deps env limit st) (executeSync deps env limit (st.apart b claims index)) := by
  unfold executeSync
  exact .ite (.error _) (.after _ fun stop => .after _ fun page => .after _ fun _ => .after _ fun _ =>
    .after _ fun _ => .ite (.after _ fun _ => .pure (.mk _ _ ⟨rfl, rfl, rfl⟩))
      (.pure (.mk _ _ ⟨rfl, rfl, rfl⟩)))

theorem executeCompound_apart {limit : Option ℕ} : Alike (Apart b claims index st)
    (executeCompound deps env limit st) (executeCompound deps env limit (st.apart b claims index)) := by
  unfold executeCompound
  exact .ite (.error _) (.after _ fun stop => .after _ fun pool => .after _ fun acc => .after _ fun r =>
    .after _ fun _ => .after _ fun _ => .after _ fun _ => .after _ fun _ =>
      .pure (.mk _ _ ⟨rfl, rfl, rfl⟩))

theorem executeManager_apart {msg : ManagerMsg} : Alike (Apart b claims index st)
    (executeManager info msg st) (executeManager info msg (st.apart b claims index)) := by
  unfold executeManager
  refine .ite (.error _) ?_
  cases msg with
  | setWeights weights => exact .after _ fun _ => .pure (.mk _ _ ⟨rfl, rfl, rfl⟩)
  | setPerformanceFee bps => exact .ite (.error _) (.ok (.mk _ _ ⟨rfl, rfl, rfl⟩))
  | rebalance plan => exact .after _ fun _ => .pure (.mk _ _ ⟨rfl, rfl, rfl⟩)

theorem executeBootstrap_apart {address codeHash : String} : Alike (Apart b claims index st)
    (executeBootstrap deps env info address codeHash st)
    (executeBootstrap deps env info address codeHash (st.apart b claims index)) := by
  unfold executeBootstrap
  exact .after _ fun _ => .after _ fun seed => .ite (.error _) (.after _ fun _ => .after _ fun _ =>
    .after _ fun _ => .after _ fun _ => .pure (.mk _ _ ⟨rfl, rfl, rfl⟩))

theorem migrate_apart : Alike (Apart b claims index st)
    (migrate st) (migrate (st.apart b claims index)) := by
  unfold migrate
  exact .after _ fun _ => .pure (.mk _ _ ⟨rfl, rfl, rfl⟩)

/-! ## What is left alone -/

/-- What does not look at the claims leaves them alone. -/
theorem Apart.keeps {α : Type} {x x' : Exec (Storage × α)} {s : Storage} {a : α}
    (h : Alike (Apart st.config.paused st.claims st.claimIndex st) x x') (hx : x = .ok (s, a)) :
    Keeps st s := by
  rw [hx] at h
  obtain ⟨_, -, hA⟩ := h.of_ok
  cases hA with
  | mk _ _ hk => exact hk

/-- The messages that make a request or claim one. -/
def ExecuteMsg.booksClaims : ExecuteMsg → Bool
  | .receive .. | .claimMatured _ => true
  | _ => false

end LstCore
