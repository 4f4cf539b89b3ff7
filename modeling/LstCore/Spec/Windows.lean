import LstCore.Spec.Types

/-!
# Batched unbonding windows

`windows.rs`: the pure lifecycle arithmetic of a window.
-/

namespace LstCore

open Lib

namespace Windows

/-- A newly opened, empty window. -/
def «open» (id now windowSecs : ℕ) : UnbondWindow where
  id := id
  openedAt := now
  closesAt := satAdd64 now windowSecs
  maturesAt := 0
  sharesBurned := 0
  scrtOwed := 0
  scrtRealised := none
  scrtClaimed := 0
  validatorsUsed := []
  state := .open

/-- Fail unless the window is open and accepting requests. -/
def assertOpen (w : UnbondWindow) : Exec Unit :=
  if w.state ≠ .open then .error (.err (.windowNotOpen w.id)) else .ok ()

/-- Fail unless the window's closing time has passed. -/
def assertClosable (w : UnbondWindow) (now : ℕ) : Exec Unit := do
  assertOpen w
  if now < w.closesAt then .error (.err (.windowNotClosed w.id w.closesAt now)) else .ok ()

/-- What actually happens when a window closes. -/
inductive Closure
  | empty
  | unbonding
deriving DecidableEq, Repr

/-- Move a closing window into its next state. -/
def close (w : UnbondWindow) (now unbondingPeriodSecs : ℕ) : UnbondWindow × Closure :=
  if w.scrtOwed = 0 then
    ({ w with state := .settled, scrtRealised := some 0 }, .empty)
  else
    ({ w with state := .unbonding, maturesAt := satAdd64 now unbondingPeriodSecs }, .unbonding)

/-- Whether an unbonding window's period has elapsed. -/
def isMature (w : UnbondWindow) (now : ℕ) : Bool := w.state == .unbonding && w.maturesAt ≤ now

/-- Record what a matured window actually received and make it claimable. -/
def mature (w : UnbondWindow) (available : Uint128) : UnbondWindow :=
  { w with scrtRealised := some (w.scrtOwed.min available), state := .matured }

/-- A single claimant's payout from a matured window. -/
def payoutForClaim (w : UnbondWindow) (claimOwed : Uint128) : Exec Uint128 :=
  let realised := w.scrtRealised.getD w.scrtOwed
  if realised = w.scrtOwed then .ok claimOwed
  else if w.scrtOwed = 0 then .ok 0
  else multiplyRatio claimOwed realised.val w.scrtOwed.val

/-- Whether a window has paid everything it is going to. -/
def isDrained (w : UnbondWindow) : Bool := w.payable ≤ w.scrtClaimed

end Windows

end LstCore
