import Mathlib.Tactic.Linarith
import Mathlib.Tactic.Ring
import LstCore.Lib.Run

/-!
# Vaults

A vault has assets, and shares of them in supply. A deposit mints no more shares than it is worth,
and a withdrawal is owed no more than its shares are worth; where there are no assets, a deposit
mints one share for each unit, and what it leaves of assets is at most what it brings.

* `Vault.price_run`: the assets of a share never fall.
* `Vault.mint_worth_le_iff`: the most shares that are worth no more than a value.
* `Vault.withdrawals_le`, `Vault.deposits_le`: trades in turn come to no more than one trade of
  their sum.
* `Vault.no_profit`: an account that starts with nothing, and is alone in trading, books no more
  than it pays.
* `Vault.donation_no_profit`: nor does one that steers the price of a single other deposit.
-/

namespace LstCore.Lib

structure Vault where
  assets : ℕ
  supply : ℕ

/-- What is done to a vault: shares minted for an amount, or an amount owed for shares. -/
inductive Trade
  | deposit (amount shares : ℕ)
  | withdraw (shares amount : ℕ)
  | pass

namespace Trade

/-- What a trade brings in. -/
def paid : Trade → ℕ
  | .deposit amount _ => amount
  | _ => 0

/-- The shares it mints. -/
def minted : Trade → ℕ
  | .deposit _ shares => shares
  | _ => 0

/-- The shares it burns. -/
def burned : Trade → ℕ
  | .withdraw shares _ => shares
  | _ => 0

/-- What it is owed. -/
def owed : Trade → ℕ
  | .withdraw _ amount => amount
  | _ => 0

/-- The trade brings nothing in. -/
def Out : Trade → Prop
  | .deposit .. => False
  | _ => True

/-- The trade takes nothing out. -/
def Into : Trade → Prop
  | .withdraw .. => False
  | _ => True

end Trade

/-- What an account has of a vault: its shares, what it has paid, and what has been booked for
it. -/
structure Position where
  shares : ℕ
  paid : ℕ
  booked : ℕ

/-- What a trade does to the position of the account that makes it. -/
inductive Position.Step (p : Position) : Trade → Position → Prop
  | deposit {amount shares : ℕ} :
      Step p (.deposit amount shares) ⟨p.shares + shares, p.paid + amount, p.booked⟩
  | withdraw {shares amount : ℕ} (hle : shares ≤ p.shares) :
      Step p (.withdraw shares amount) ⟨p.shares - shares, p.paid, p.booked + amount⟩
  | pass : Step p .pass p

namespace Vault

variable {v v' : Vault} {p p' : Position} {t : Trade} {h : List Trade}

inductive Step (v : Vault) : Trade → Vault → Prop
  | deposit {amount shares : ℕ} (hne : v.assets ≠ 0)
      (hfair : shares * v.assets ≤ amount * v.supply) :
      Step v (.deposit amount shares) ⟨v.assets + amount, v.supply + shares⟩
  | refill {amount left : ℕ} (hz : v.assets = 0) (hle : left ≤ amount) :
      Step v (.deposit amount amount) ⟨left, v.supply + amount⟩
  | withdraw {shares amount : ℕ} (hle : shares ≤ v.supply)
      (hfair : amount * v.supply ≤ shares * v.assets) :
      Step v (.withdraw shares amount) ⟨v.assets - amount, v.supply - shares⟩
  | pass : Step v .pass v

/-- The supply follows what a trade mints and burns. -/
theorem Step.supply (hs : Step v t v') : v'.supply + t.burned = v.supply + t.minted := by
  cases hs with
  | withdraw hle hfair => exact Nat.sub_add_cancel hle
  | _ => rfl

/-! ## The price of a share -/

/-- **A trade does not lower the price.** -/
theorem Step.price (hs : Step v t v') : v.assets * v'.supply ≤ v'.assets * v.supply := by
  cases hs with
  | deposit hne hfair =>
    rw [Nat.mul_add, Nat.add_mul]
    exact Nat.add_le_add_left (Nat.mul_comm v.assets _ ▸ hfair) _
  | refill hz hle =>
    rw [hz, Nat.zero_mul]
    exact Nat.zero_le _
  | withdraw hle hfair =>
    rw [Nat.mul_sub, Nat.sub_mul]
    exact Nat.sub_le_sub_left (Nat.mul_comm v.assets _ ▸ hfair) _
  | pass => exact Nat.le_refl _

/-- Prices compare as fractions do. -/
theorem price_trans {w : Vault} (hpos : 0 < v'.supply)
    (h₁ : v.assets * v'.supply ≤ v'.assets * v.supply)
    (h₂ : v'.assets * w.supply ≤ w.assets * v'.supply) :
    v.assets * w.supply ≤ w.assets * v.supply := by
  refine Nat.le_of_mul_le_mul_right ?_ hpos
  calc v.assets * w.supply * v'.supply
      = v.assets * v'.supply * w.supply := by ring
    _ ≤ v'.assets * v.supply * w.supply := Nat.mul_le_mul_right _ h₁
    _ = v'.assets * w.supply * v.supply := by ring
    _ ≤ w.assets * v'.supply * v.supply := Nat.mul_le_mul_right _ h₂
    _ = w.assets * v.supply * v'.supply := by ring

/-- **The price never falls**, as long as there is a supply. -/
theorem price_run (hpos : 0 < v.supply)
    (hr : Run (fun v t v' => Step v t v' ∧ 0 < v'.supply) v h v') :
    v.assets * v'.supply ≤ v'.assets * v.supply := by
  refine (hr.inv (P := fun w => 0 < w.supply ∧ v.assets * w.supply ≤ w.assets * v.supply)
    ⟨hpos, Nat.le_refl _⟩ ?_).2
  rintro w t w' ⟨hw, hle⟩ ⟨hs, hw'⟩
  exact ⟨hw', price_trans hw hle hs.price⟩

/-! ## Minting for a value -/

/-- **The most shares worth a value.** `k` shares of a supply that they join are worth no more than
`f` of `n` assets as long as there are at most `f * s / (n - f)` of them. -/
theorem mint_worth_le_iff {f n s k : ℕ} (hlt : f < n) :
    k * n ≤ f * (s + k) ↔ k ≤ f * s / (n - f) := by
  rw [Nat.le_div_iff_mul_le (by omega), Nat.mul_sub, Nat.mul_add, Nat.mul_comm k f]
  omega

/-- Shares worth no more than a part of what comes in leave the price where it is or higher. -/
theorem price_le_of_worth {a r f s m : ℕ} (hle : f ≤ r) (hm : m * (a + r) ≤ f * (s + m)) :
    a * (s + m) ≤ (a + r) * s := by
  have hr : f * (s + m) ≤ r * (s + m) := Nat.mul_le_mul_right _ hle
  have h := hm.trans hr
  rw [Nat.mul_add, Nat.mul_add, Nat.mul_comm m a, Nat.mul_comm m r] at h
  rw [Nat.mul_add, Nat.add_mul]
  omega

/-! ## Trades in turn -/

/-- What shares of the supply are worth is there. -/
theorem worth_le {a s shares amount : ℕ} (hle : shares ≤ s) (hfair : amount * s ≤ shares * a)
    (hpos : 0 < s) : amount ≤ a := by
  refine Nat.le_of_mul_le_mul_right (hfair.trans ?_) hpos
  rw [Nat.mul_comm shares]
  exact Nat.mul_le_mul_left _ hle

/-- A withdrawal takes from both sides. -/
theorem Step.withdrawn (hs : Step v t v') (ht : t.Out) (hpos : 0 < v.supply) :
    v'.assets + t.owed = v.assets ∧ v'.supply + t.burned = v.supply := by
  cases hs with
  | deposit | refill => cases ht
  | withdraw hle hfair =>
    rename_i shares amount
    exact ⟨Nat.sub_add_cancel (worth_le hle hfair hpos), Nat.sub_add_cancel hle⟩
  | pass => exact ⟨rfl, rfl⟩

/-- A deposit adds to both. -/
theorem Step.deposited (hs : Step v t v') (ht : t.Into) (hne : v.assets ≠ 0) :
    v'.assets = v.assets + t.paid ∧ v'.supply = v.supply + t.minted := by
  cases hs with
  | deposit => exact ⟨rfl, rfl⟩
  | refill hz => exact absurd hz hne
  | withdraw => cases ht
  | pass => exact ⟨rfl, rfl⟩

/-- **Withdrawals in turn** are owed no more than one withdrawal of their shares. -/
theorem withdrawals_le (hpos : 0 < v.supply)
    (hr : Run (fun v t v' => Step v t v' ∧ t.Out ∧ 0 < v.supply) v h v') :
    (h.map Trade.owed).sum ≤ (h.map Trade.burned).sum * v.assets / v.supply := by
  have hassets : v'.assets + (h.map Trade.owed).sum = v.assets ∧
      v'.supply + (h.map Trade.burned).sum = v.supply := by
    induction hr with
    | nil => exact ⟨rfl, rfl⟩
    | cons _ hs ih =>
      obtain ⟨h₁, h₂⟩ := hs.1.withdrawn hs.2.1 hs.2.2
      simp only [List.map_cons, List.sum_cons]
      omega
  -- the dust each piece leaves behind only raises the price
  have hprice : v.assets * v'.supply ≤ v'.assets * v.supply :=
    hr.inv (P := fun w => v.assets * w.supply ≤ w.assets * v.supply) (Nat.le_refl _)
      fun w t w' hle hs => price_trans hs.2.2 hle hs.1.price
  rw [Nat.le_div_iff_mul_le hpos]
  obtain ⟨ha, hs⟩ := hassets
  have ha' := congrArg (· * v.supply) ha
  have hs' := congrArg (v.assets * ·) hs
  simp only [Nat.add_mul, Nat.mul_add] at ha' hs'
  rw [Nat.mul_comm (h.map Trade.burned).sum]
  omega

/-- **Deposits in turn** mint no more than one deposit of their sum. -/
theorem deposits_le (hpos : 0 < v.supply) (hne : v.assets ≠ 0)
    (hr : Run (fun v t v' => Step v t v' ∧ t.Into) v h v') :
    (h.map Trade.minted).sum ≤ (h.map Trade.paid).sum * v.supply / v.assets := by
  obtain ⟨⟨ha, hs⟩, hprice⟩ : (v'.assets = v.assets + (h.map Trade.paid).sum ∧
      v'.supply = v.supply + (h.map Trade.minted).sum) ∧
        v.assets * v'.supply ≤ v'.assets * v.supply := by
    induction hr with
    | nil => exact ⟨⟨rfl, rfl⟩, Nat.le_refl _⟩
    | cons _ hs ih =>
      obtain ⟨⟨ha, hs'⟩, hle⟩ := ih
      obtain ⟨h₁, h₂⟩ := hs.1.deposited hs.2 (by omega)
      refine ⟨?_, price_trans (by omega) hle hs.1.price⟩
      simp only [List.map_cons, List.sum_cons]
      omega
  rw [Nat.le_div_iff_mul_le (by omega)]
  rw [ha, hs, Nat.add_mul, Nat.mul_add, Nat.mul_comm v.assets (h.map Trade.minted).sum] at hprice
  omega

/-! ## An account alone -/

/-- A trade of the account whose position it is, and the two it leads to. -/
def Solo (s : Vault × Position) (t : Trade) (s' : Vault × Position) : Prop :=
  s.1.Step t s'.1 ∧ s.2.Step t s'.2 ∧ 0 < s'.1.supply

/-- What has been booked for the account and what its shares are worth is within what it has
paid. -/
structure Even (v : Vault) (p : Position) : Prop where
  pos : 0 < v.supply
  held : p.shares ≤ v.supply
  worth : p.booked * v.supply + v.assets * p.shares ≤ p.paid * v.supply

/-- Shares minted at no more than their price. -/
theorem even_deposit {A S s D W d m : ℤ} (hA : 0 < A) (hd : 0 ≤ d) (hm : 0 ≤ m)
    (hs : s ≤ S) (hfair : m * A ≤ d * S) (hw : W * S + A * s ≤ D * S) :
    W * (S + m) + (A + d) * (s + m) ≤ (D + d) * (S + m) := by
  -- what is left over, before the deposit and by the rounding of its shares
  set σ := (D - W) * S - A * s with hσ
  set ρ := d * S - m * A with hρ
  have hσ0 : 0 ≤ σ := by linarith
  have hρ0 : 0 ≤ ρ := by linarith
  have key : A * ((D + d) * (S + m) - (W * (S + m) + (A + d) * (s + m))) =
      (A + d) * σ + (A - (D - W)) * ρ := by
    rw [hσ, hρ]
    ring
  have hle : 0 ≤ (A + d) * σ + (A - (D - W)) * ρ := by
    rcases le_total (D - W) A with hE | hE
    · have h1 : 0 ≤ (A + d) * σ := mul_nonneg (by linarith) hσ0
      have h2 : 0 ≤ (A - (D - W)) * ρ := mul_nonneg (by linarith) hρ0
      linarith
    · -- the account has paid more than there is, and holds no more than everything
      have h1 : 0 ≤ A * σ := mul_nonneg hA.le hσ0
      have h2 : ((D - W) - A) * S ≤ σ := by
        have := mul_le_mul_of_nonneg_left hs hA.le
        rw [hσ]
        linarith
      have h3 : d * (((D - W) - A) * S) ≤ d * σ := mul_le_mul_of_nonneg_left h2 hd
      have h4 : ((D - W) - A) * ρ ≤ ((D - W) - A) * (d * S) := by
        refine mul_le_mul_of_nonneg_left ?_ (by linarith)
        have := mul_nonneg hm hA.le
        linarith
      have h5 : (A + d) * σ + (A - (D - W)) * ρ = A * σ + (d * σ - ((D - W) - A) * ρ) := by ring
      have h6 : d * (((D - W) - A) * S) = ((D - W) - A) * (d * S) := by ring
      linarith
  have := nonneg_of_mul_nonneg_right (key ▸ hle) hA
  linarith

/-- Shares burned for no more than their price; `S`, `s` and `A` are what is left. -/
theorem even_withdraw {A S s D W q x : ℤ} (hS : 0 < S) (hq : 0 ≤ q) (hs : s ≤ S)
    (hfair : x * (S + q) ≤ q * (A + x)) (hw : W * (S + q) + (A + x) * (s + q) ≤ D * (S + q)) :
    (W + x) * S + A * s ≤ D * S := by
  have key : (S + q) * (D * S - ((W + x) * S + A * s)) =
      S * (D * (S + q) - (W * (S + q) + (A + x) * (s + q))) +
        (S - s) * (q * (A + x) - x * (S + q)) := by ring
  have h1 : 0 ≤ S * (D * (S + q) - (W * (S + q) + (A + x) * (s + q))) :=
    mul_nonneg hS.le (by linarith)
  have h2 : 0 ≤ (S - s) * (q * (A + x) - x * (S + q)) := mul_nonneg (by linarith) (by linarith)
  have := nonneg_of_mul_nonneg_right (key ▸ add_nonneg h1 h2) (by linarith)
  linarith

/-- **A trade of the account keeps it even.** -/
theorem Even.step (he : Even v p) (hs : Step v t v') (hp : p.Step t p') (hpos : 0 < v'.supply) :
    Even v' p' := by
  obtain ⟨hS, hheld, hw⟩ := he
  cases hs with
  | deposit hne hfair =>
    cases hp with
    | deposit =>
      refine ⟨hpos, Nat.add_le_add_right hheld _, ?_⟩
      have hA := Nat.pos_of_ne_zero hne
      zify at hA hheld hfair hw ⊢
      exact even_deposit hA (by positivity) (by positivity) hheld hfair hw
  | refill hz hle =>
    cases hp with
    | deposit =>
      refine ⟨hpos, Nat.add_le_add_right hheld _, ?_⟩
      rename_i amount left
      rw [hz, Nat.zero_mul, Nat.add_zero] at hw
      have hWD : p.booked ≤ p.paid := Nat.le_of_mul_le_mul_right hw hS
      dsimp only
      calc p.booked * (v.supply + amount) + left * (p.shares + amount)
          ≤ p.paid * (v.supply + amount) + amount * (v.supply + amount) :=
            Nat.add_le_add (Nat.mul_le_mul_right _ hWD)
              (Nat.mul_le_mul hle (Nat.add_le_add_right hheld _))
        _ = (p.paid + amount) * (v.supply + amount) := (Nat.add_mul _ _ _).symm
  | withdraw hle hfair =>
    cases hp with
    | withdraw hq =>
      rename_i shares amount
      refine ⟨hpos, Nat.sub_le_sub_right hheld _, ?_⟩
      have hx : amount ≤ v.assets := worth_le hle hfair hS
      obtain ⟨S, hS'⟩ := Nat.exists_eq_add_of_le' hle
      obtain ⟨s, hs'⟩ := Nat.exists_eq_add_of_le' hq
      obtain ⟨A, hA'⟩ := Nat.exists_eq_add_of_le' hx
      dsimp only at hpos ⊢
      rw [hS'] at hpos hheld hfair hw ⊢
      rw [hs'] at hheld hw ⊢
      rw [hA'] at hfair hw ⊢
      rw [Nat.add_sub_cancel] at hpos
      simp only [Nat.add_sub_cancel]
      zify at hpos hheld hfair hw ⊢
      exact even_withdraw hpos (by positivity) (by linarith) hfair hw
  | pass =>
    cases hp
    exact ⟨hpos, hheld, hw⟩

/-- **No profit.** An account that starts without shares, and is alone in trading, books no more
than it pays. -/
theorem no_profit (hpos : 0 < v.supply) (hr : Run Solo (v, ⟨0, 0, 0⟩) h (v', p')) :
    p'.booked ≤ p'.paid := by
  have he : Even v' p' := by
    refine hr.inv (P := fun s => Even s.1 s.2) ⟨hpos, Nat.zero_le _, by simp⟩ ?_
    rintro s t s' he ⟨hs, hp, hpos'⟩
    exact he.step hs hp hpos'
  refine Nat.le_of_mul_le_mul_right ?_ he.pos
  exact (Nat.le_add_right _ _).trans he.worth

/-! ## An account that donates -/

/-- Shares of a vault of `p` assets and `t` shares, `p` counting a donation of `g` beyond one for
each share, of which somebody else buys `v` for `d`: `a` of them, short of the whole by at least
one, are worth no more than `a + g` rounded down. -/
theorem donation_no_profit {a g t p d v : ℕ} (hp : p = t + g) (hlt : a < t) (hd : d * t < (v + 1) * p) :
    a * (p + d) / (t + v) ≤ a + g := by
  refine Nat.le_of_lt_succ (Nat.div_lt_of_lt_mul ?_)
  obtain ⟨s, rfl⟩ : ∃ s, t = a + s + 1 := ⟨t - a - 1, by omega⟩
  subst hp
  have key : (a + s + 1 + v) * (a + g + 1) * (a + s + 1) =
      a * (a + s + 1 + g) * (a + s + 1 + v + 1) +
        (g * (s * (a + s + 1 + v) + s + 1 + v) + (a + s + 1) * (s + 1 + v)) := by ring
  have hpos : 0 < g * (s * (a + s + 1 + v) + s + 1 + v) + (a + s + 1) * (s + 1 + v) := by positivity
  refine Nat.lt_of_mul_lt_mul_right (a := a + s + 1) ?_
  calc a * (a + s + 1 + g + d) * (a + s + 1)
      = a * (a + s + 1 + g) * (a + s + 1) + a * (d * (a + s + 1)) := by ring
    _ ≤ a * (a + s + 1 + g) * (a + s + 1) + a * ((v + 1) * (a + s + 1 + g)) :=
      Nat.add_le_add_left (Nat.mul_le_mul_left _ hd.le) _
    _ = a * (a + s + 1 + g) * (a + s + 1 + v + 1) := by ring
    _ < (a + s + 1 + v) * (a + g + 1) * (a + s + 1) := by omega

/-- What is bought is worth more, once it is paid for, than what it cost less the price of one
share. -/
theorem bought_worth {t p d v : ℕ} (hp : 0 < p) (ht : 0 < t) (hd : d * t < (v + 1) * p) :
    (d : ℚ) - p / t < v * (p + d : ℕ) / (t + v : ℕ) := by
  have ht' : (0 : ℚ) < t := by exact_mod_cast ht
  have hp' : (0 : ℚ) < p := by exact_mod_cast hp
  have hd' : (0 : ℚ) < (v + 1) * p - d * t := by
    rw [sub_pos]
    exact_mod_cast hd
  have heq : (d : ℚ) - p / t = (d * t - p) / t := by
    rw [sub_div, mul_div_cancel_right₀ _ ht'.ne']
  rw [heq]
  push_cast
  rw [div_lt_div_iff₀ ht' (by positivity), ← sub_pos]
  have hgap : (v : ℚ) * (p + d) * t - (d * t - p) * (t + v) = ((v + 1) * p - d * t) * t + v * p := by
    ring
  rw [hgap]
  positivity

end Vault

end LstCore.Lib
