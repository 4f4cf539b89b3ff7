import LstCore.Lib.Vault
import LstCore.Proof.Math

/-!
# The fee to one share

The shares of the fee are what solves `m / (S + m) * (A + R) = f`, rounded down. So they are the
most shares that are worth no more than the fee after they are minted, and they leave the rate of
the other holders where it was before the rewards, or higher (`fee_exact`).
-/

namespace LstCore

open Lib

variable {rewards m : Uint128} {bps f : ℕ} {p : PoolTotals}

/-- The fee is within the rewards. -/
theorem feeValue_le (rewards : ℕ) (hbps : bps ≤ bpsDenom) : rewards * bps / bpsDenom ≤ rewards :=
  Nat.div_le_of_le_mul (Nat.mul_comm bpsDenom rewards ▸ Nat.mul_le_mul_left rewards hbps)

/-- **The fee to one share.** Shares are worth no more than the fee, once they are minted and the
rewards are in, exactly as long as there are no more of them than the fee mints; and the assets of
a share do not fall below what they were before. -/
theorem fee_exact (hbps : bps ≤ bpsDenom) (h : feeSharesForRewards rewards bps p = .ok m)
    (hf : f = rewards.val * bps / bpsDenom) (hden : f < p.net + rewards.val) :
    (∀ k, k * (p.net + rewards.val) ≤ f * (p.supply.val + k) ↔ k ≤ m.val) ∧
      m.val * (p.net + rewards.val) ≤ f * (p.supply.val + m.val) ∧
      f * (p.supply.val + m.val + 1) < (m.val + 1) * (p.net + rewards.val) ∧
      p.net * (p.supply.val + m.val) ≤ (p.net + rewards.val) * p.supply.val := by
  have hm : ∀ k, k * (p.net + rewards.val) ≤ f * (p.supply.val + k) ↔ k ≤ m.val := by
    intro k
    rw [Vault.mint_worth_le_iff hden, feeShares_val h, feeShares, ← hf]
  have hworth := (hm m.val).2 (Nat.le_refl _)
  refine ⟨hm, hworth, not_le.1 fun hle => ?_, Vault.price_le_of_worth ?_ hworth⟩
  · exact absurd ((hm (m.val + 1)).1 hle) (Nat.not_succ_le_self _)
  · exact hf ▸ feeValue_le rewards.val hbps

/-- A tenth of 100 rewards, to a pool of 500 shares worth 700: 6 shares are worth no more than
10, and 7 are worth more. -/
theorem fee_exact_tenth :
    feeSharesForRewards (Uint128.new 100) 1000 ⟨Uint128.new 700, 0, 0, 0, Uint128.new 500⟩ =
        .ok (Uint128.new 6) ∧
      6 * 800 ≤ 10 * 506 ∧ 10 * 507 < 7 * 800 := by
  have h : feeSharesForRewards (Uint128.new 100) 1000 ⟨Uint128.new 700, 0, 0, 0, Uint128.new 500⟩ =
      .ok (Uint128.new 6) := by decide +kernel
  have hexact := fee_exact (by decide) h rfl (by decide)
  exact ⟨h, hexact.2.1, hexact.2.2.1⟩

end LstCore
