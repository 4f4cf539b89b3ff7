import LstCore.Lib.ProRata
import LstCore.Spec.Contract

/-!
# The queue as an abstract machine

What the withdrawal queue is for, apart from how a transaction moves it. A `Queue` is
the part of the storage that holds windows and claims. It moves in four ways: an
account joins the open window, the open window closes, a window in flight comes back
with some amount, and one claim is paid its share of what came back.

Every transaction of the contract is a run of these moves (`Proof.Refine`), so what
the moves keep, the contract keeps.
-/

namespace LstCore

open Lib

/-- The windows and the claims. -/
structure Queue where
  windows : Keymap ℕ UnbondWindow
  openWindow : ℕ
  nextWindowId : ℕ
  activeWindows : List ℕ
  claims : Keymap (Addr × ℕ) ClaimRecord
  claimIndex : Addr → List ℕ

/-- The queue a storage holds. -/
def Storage.queue (st : Storage) : Queue where
  windows := st.windows
  openWindow := st.openWindow
  nextWindowId := st.nextWindowId
  activeWindows := st.activeWindows
  claims := st.claims
  claimIndex := st.claimIndex

/-- What a claim is worth in a window, once the window has come back. -/
def worth (w : UnbondWindow) (c : ClaimRecord) : ℕ :=
  share c.scrtOwed.val w.payable.val w.scrtOwed.val

inductive Move
  | join (u : Addr) (shares owed : Uint128)
  | close (now maturesAt windowSecs : ℕ) (used : List String)
  | mature (id : ℕ) (realised : Uint128)
  | pay (u : Addr) (id : ℕ) (payout : Uint128)

/-- A move that a call at time `now` can make: a closing is at that time and on the terms of
the parameters. -/
def Move.Timed (now : ℕ) (params : ProtocolParams) : Move → Prop
  | .close t maturesAt windowSecs _ => t = now ∧
    maturesAt = satAdd64 now params.unbondingPeriodSecs ∧ windowSecs = params.unbondWindowSecs
  | _ => True

/-- The window after a request has joined it. -/
def UnbondWindow.joined (w : UnbondWindow) (sharesBurned scrtOwed : Uint128) : UnbondWindow :=
  { w with sharesBurned := sharesBurned, scrtOwed := scrtOwed }

/-- The window with its undelegations in flight. -/
def UnbondWindow.sent (w : UnbondWindow) (maturesAt : ℕ) (used : List String) : UnbondWindow :=
  { w with state := .unbonding, maturesAt := maturesAt, validatorsUsed := used }

/-- The window that came back with `r`. -/
def UnbondWindow.returned (w : UnbondWindow) (r : Uint128) : UnbondWindow :=
  { w with scrtRealised := some r, state := .matured }

/-- The window after a payment that brings what it has paid to `claimed`. -/
def UnbondWindow.paying (w : UnbondWindow) (claimed : Uint128) : UnbondWindow :=
  let w := { w with scrtClaimed := claimed }
  if Windows.isDrained w then { w with state := .settled } else w

/-- Closed with nothing in it. -/
def UnbondWindow.emptied (w : UnbondWindow) : UnbondWindow :=
  { w with state := .settled, scrtRealised := some 0 }

/-- The open window of `q` replaced by `closed`, with a fresh one opened after it. -/
def Queue.advance (q : Queue) (now windowSecs : ℕ) (closed : UnbondWindow) (active : List ℕ) :
    Queue :=
  { q with
    windows := (q.windows.insert q.openWindow closed).insert q.nextWindowId
      (Windows.open q.nextWindowId now windowSecs)
    openWindow := q.nextWindowId
    nextWindowId := q.nextWindowId + 1
    activeWindows := active }

theorem Queue.lookup_advance (q : Queue) (now windowSecs : ℕ) (closed : UnbondWindow)
    (active : List ℕ) (id : ℕ) : (q.advance now windowSecs closed active).windows.lookup id =
      if id = q.nextWindowId then some (Windows.open q.nextWindowId now windowSecs)
      else if id = q.openWindow then some closed else q.windows.lookup id := by
  simp only [Queue.advance, Keymap.lookup_put]

/-- After the advance a window is the new one, the closed one, or one that was there before. -/
theorem Queue.advance_cases {q : Queue} {now windowSecs id : ℕ} {closed w : UnbondWindow}
    {active : List ℕ} (h : (q.advance now windowSecs closed active).windows.lookup id = some w) :
    (id = q.nextWindowId ∧ w = Windows.open q.nextWindowId now windowSecs) ∨
      (id ≠ q.nextWindowId ∧ id = q.openWindow ∧ w = closed) ∨
      (id ≠ q.nextWindowId ∧ id ≠ q.openWindow ∧ q.windows.lookup id = some w) := by
  rcases Keymap.put_cases h with ⟨hi, hw⟩ | ⟨hi, h⟩
  · exact .inl ⟨hi, hw⟩
  · rcases Keymap.put_cases h with ⟨hi', hw⟩ | ⟨hi', h⟩
    · exact .inr (.inl ⟨hi, hi', hw⟩)
    · exact .inr (.inr ⟨hi, hi', h⟩)

/-- The moves of the queue. -/
inductive Queue.Step (q : Queue) : Move → Queue → Prop
  | joinNew {u : Addr} {shares owed sb so : Uint128} {w : UnbondWindow}
      (hw : q.windows.lookup q.openWindow = some w) (hopen : w.state = .open)
      (hc : q.claims.lookup (u, q.openWindow) = none)
      (hsb : sb.val = w.sharesBurned.val + shares.val)
      (hso : so.val = w.scrtOwed.val + owed.val) :
      Step q (.join u shares owed) { q with
        windows := q.windows.insert q.openWindow (w.joined sb so)
        claims := q.claims.insert (u, q.openWindow) ⟨q.openWindow, shares, owed, false⟩
        claimIndex := Function.update q.claimIndex u (q.claimIndex u ++ [q.openWindow]) }
  | joinOld {u : Addr} {shares owed sb so csb cso : Uint128} {w : UnbondWindow} {c : ClaimRecord}
      (hw : q.windows.lookup q.openWindow = some w) (hopen : w.state = .open)
      (hc : q.claims.lookup (u, q.openWindow) = some c)
      (hsb : sb.val = w.sharesBurned.val + shares.val)
      (hso : so.val = w.scrtOwed.val + owed.val)
      (hcsb : csb.val = c.sharesBurned.val + shares.val)
      (hcso : cso.val = c.scrtOwed.val + owed.val) :
      Step q (.join u shares owed) { q with
        windows := q.windows.insert q.openWindow (w.joined sb so)
        claims := q.claims.insert (u, q.openWindow)
          { c with sharesBurned := csb, scrtOwed := cso } }
  | closeEmpty {now maturesAt windowSecs : ℕ} {used : List String} {w : UnbondWindow}
      (hw : q.windows.lookup q.openWindow = some w) (hopen : w.state = .open)
      (hdue : w.closesAt ≤ now) (hz : w.scrtOwed = 0) :
      Step q (.close now maturesAt windowSecs used)
        (q.advance now windowSecs w.emptied q.activeWindows)
  | close {now maturesAt windowSecs : ℕ} {used : List String} {w : UnbondWindow}
      (hw : q.windows.lookup q.openWindow = some w) (hopen : w.state = .open)
      (hdue : w.closesAt ≤ now) (hz : w.scrtOwed ≠ 0) :
      Step q (.close now maturesAt windowSecs used)
        (q.advance now windowSecs (w.sent maturesAt used) (q.activeWindows ++ [q.openWindow]))
  | mature {id : ℕ} {r : Uint128} {w : UnbondWindow}
      (hw : q.windows.lookup id = some w) (hs : w.state = .unbonding) (hr : r ≤ w.scrtOwed) :
      Step q (.mature id r) { q with windows := q.windows.insert id (w.returned r) }
  | pay {u : Addr} {id : ℕ} {p sc : Uint128} {w : UnbondWindow} {c : ClaimRecord}
      (hw : q.windows.lookup id = some w) (hs : w.state = .matured)
      (hc : q.claims.lookup (u, id) = some c) (hu : c.claimed = false)
      (hp : p.val = worth w c) (hsc : sc.val = w.scrtClaimed.val + p.val) :
      Step q (.pay u id p) { q with
        windows := q.windows.insert id (w.paying sc)
        claims := q.claims.insert (u, id) { c with claimed := true }
        activeWindows := if (w.paying sc).state = .settled then q.activeWindows.filter (· ≠ id)
          else q.activeWindows }

/-! ## What the queue owes -/

namespace Queue

/-- Owed by the open window. -/
def openOwed (q : Queue) : ℕ := (q.windows.lookup q.openWindow).elim 0 (·.scrtOwed.val)

/-- Owed by the windows in flight. -/
def unbondingOwed (q : Queue) : ℕ :=
  q.windows.total fun _ w => if w.state = .unbonding then w.scrtOwed.val else 0

/-- Still to be paid by the windows that came back. -/
def maturedOwed (q : Queue) : ℕ :=
  q.windows.total fun _ w => if w.state = .matured then w.outstanding.val else 0

/-- The sum of a quantity over the claims against a window. -/
def claimTotal (q : Queue) (id : ℕ) (f : ClaimRecord → ℕ) : ℕ :=
  q.claims.total fun k c => if k.2 = id then f c else 0

/-- What has been paid on the claims against a window. -/
def paidOn (q : Queue) (id : ℕ) (w : UnbondWindow) : ℕ :=
  q.claimTotal id fun c => if c.claimed then worth w c else 0

/-- What is still due on them. -/
def dueOn (q : Queue) (id : ℕ) (w : UnbondWindow) : ℕ :=
  q.claimTotal id fun c => if c.claimed then 0 else worth w c

end Queue

end LstCore
