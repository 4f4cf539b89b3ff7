import LstCore.Spec.Math

/-!
# The pricing functions in numbers

* `assets_eq_ok`: the assets of a pool, and when they can be had.
* `sharesForDeposit_val`, `assetsForShares_val`: the shares of a deposit, and what shares are owed.
* `exchangeRate_val`, `feeShares_val`: the reported rate and the shares of the fee.
* `rate_le_iff`: when a mint leaves the rate where it is or higher.
-/

namespace LstCore

open Lib

theorem mulDivFloor_eq_ok {a b d : ℕ} {context : String} {c : Uint128} :
    mulDivFloor a b d context = .ok c ↔ d ≠ 0 ∧ c.val = a * b / d := by
  unfold mulDivFloor
  split <;> simp_all [orErr_eq_ok]

/-- What the pool's assets are, as a number. -/
def PoolTotals.net (p : PoolTotals) : ℕ :=
  p.bonded.val + p.pendingRewards.val + p.liquid.val - p.owedBacked.val

theorem assets_eq_ok {p : PoolTotals} {a : Uint128} : p.assets = .ok a ↔
    p.bonded.val + p.pendingRewards.val + p.liquid.val < 2 ^ 128 ∧ a.val = p.net := by
  unfold PoolTotals.assets PoolTotals.net
  simp only [bind_eq_ok, orErr_eq_ok, Word.add?_eq_some, pure_eq_ok]
  constructor
  · rintro ⟨v, hv, g, hg, rfl⟩
    have := g.isLt
    exact ⟨by omega, by rw [Word.val_satSub, hg, hv]⟩
  · rintro ⟨hlt, ha⟩
    refine ⟨⟨p.bonded.val + p.pendingRewards.val, by omega⟩, rfl,
      ⟨p.bonded.val + p.pendingRewards.val + p.liquid.val, hlt⟩, rfl, Word.ext ?_⟩
    rw [Word.val_satSub, ha]

/-- **The shares of a deposit.** -/
theorem sharesForDeposit_val {deposit shares : Uint128} {p : PoolTotals}
    (h : sharesForDeposit deposit p = .ok shares) :
    shares.val = if p.supply = 0 ∨ p.net = 0 then deposit.val
      else deposit.val * p.supply.val / p.net := by
  unfold sharesForDeposit at h
  simp only [guard_eq_ok, bind_eq_ok] at h
  obtain ⟨-, a, ha, h⟩ := h
  have hnet := (assets_eq_ok.1 ha).2
  rw [← hnet]
  split at h
  · rename_i hz
    rw [pure_eq_ok] at h
    rw [if_pos (hz.imp_right Word.eq_zero_iff.1), h]
  · rename_i hz
    rw [if_neg fun hz' => hz (hz'.imp_right Word.eq_zero_iff.2)]
    exact (mulDivFloor_eq_ok.1 h).2

/-- **What shares are owed.** -/
theorem assetsForShares_val {shares owed : Uint128} {p : PoolTotals}
    (h : assetsForShares shares p = .ok owed) :
    owed.val = if p.supply = 0 then 0 else shares.val * p.net / p.supply.val := by
  unfold assetsForShares at h
  rw [guard_eq_ok] at h
  obtain ⟨-, h⟩ := h
  split at h
  · rename_i hz
    rw [pure_eq_ok] at h
    rw [if_pos hz, ← h]
    rfl
  · rename_i hz
    simp only [bind_eq_ok, mulDivFloor_eq_ok] at h
    obtain ⟨a, ha, -, ho⟩ := h
    rw [if_neg hz, ho, (assets_eq_ok.1 ha).2]

/-- **The reported rate.** -/
theorem exchangeRate_val {p : PoolTotals} {rate : Uint128} (h : exchangeRate p = .ok rate) :
    rate.val = if p.supply = 0 then rateScale else p.net * rateScale / p.supply.val := by
  unfold exchangeRate at h
  split at h
  · rename_i hz
    rw [pure_eq_ok] at h
    rw [if_pos hz, ← h]
    rfl
  · rename_i hz
    simp only [bind_eq_ok, mulDivFloor_eq_ok] at h
    obtain ⟨a, ha, -, hr⟩ := h
    rw [if_neg hz, hr, (assets_eq_ok.1 ha).2]

/-- The shares that the fee on some rewards is worth to a pool without them. -/
def feeShares (rewards bps assets supply : ℕ) : ℕ :=
  rewards * bps / bpsDenom * supply / (assets + rewards - rewards * bps / bpsDenom)

/-- A higher rate, still short of the whole, never mints fewer shares. -/
theorem feeShares_mono {rewards bps bps' : ℕ} (assets supply : ℕ) (h : bps ≤ bps')
    (h' : bps' < bpsDenom) :
    feeShares rewards bps assets supply ≤ feeShares rewards bps' assets supply := by
  have hvalue : rewards * bps / bpsDenom ≤ rewards * bps' / bpsDenom :=
    Nat.div_le_div_right (Nat.mul_le_mul_left rewards h)
  rcases Nat.eq_zero_or_pos rewards with rfl | hpos
  · simp [feeShares]
  · -- the fee is less than the rewards, so that something is left to divide by
    have hless : rewards * bps' / bpsDenom < rewards :=
      Nat.div_lt_of_lt_mul (by rw [Nat.mul_comm]; exact Nat.mul_lt_mul_of_pos_right h' hpos)
    exact Nat.div_le_div (Nat.mul_le_mul_right supply hvalue) (by omega) (by omega)

/-- **The shares of the fee.** -/
theorem feeShares_val {rewards fee : Uint128} {bps : ℕ} {p : PoolTotals}
    (h : feeSharesForRewards rewards bps p = .ok fee) :
    fee.val = feeShares rewards.val bps p.net p.supply.val := by
  unfold feeSharesForRewards at h
  split at h
  · rename_i hz
    rw [pure_eq_ok] at h
    rw [← h]
    rcases hz with hz | hz | hz
    · simp [feeShares, hz]
    · simp [feeShares, hz]
    · simp [feeShares, hz]
  · simp only [bind_eq_ok, mulDivFloor_eq_ok] at h
    obtain ⟨f, ⟨-, hf⟩, h⟩ := h
    split at h
    · rename_i hz
      rw [pure_eq_ok] at h
      rw [← h, feeShares, ← hf, hz]
      simp
    · simp only [bind_eq_ok, orErr_eq_ok, Word.add?_eq_some, Word.sub?_eq_some] at h
      obtain ⟨a, ha, after, hafter, d, hd, h⟩ := h
      have hden : d.val = p.net + rewards.val - f.val := by
        rw [← (assets_eq_ok.1 ha).2]
        omega
      split at h
      · rename_i hz
        rw [pure_eq_ok] at h
        rw [← h, feeShares, ← hf, ← hden, hz]
        simp
      · rw [mulDivFloor_eq_ok] at h
        rw [h.2, hden, hf]
        rfl

/-- **When a rate does not fall.** `m` shares are minted while the assets go from `a` to `a'`. -/
theorem rate_le_iff {a a' s m e : ℕ} (hs : s ≠ 0) :
    a * e / s ≤ a' * e / (s + m) ↔ a * e / s * m + a * e ≤ a' * e + a * e % s := by
  have hdiv := Nat.div_add_mod (a * e) s
  rw [Nat.le_div_iff_mul_le (by omega), Nat.mul_add, Nat.mul_comm (a * e / s) s]
  omega

end LstCore
