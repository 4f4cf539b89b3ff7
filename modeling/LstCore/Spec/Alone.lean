import LstCore.Spec.Keeper
import LstCore.Spec.Staking

/-!
# A keeper alone with the chain

The client of `client.ts` on the chain, while the keeper is the only one to send anything and no
rewards accrue. Between its calls time passes, undelegated money comes back and validators may
be slashed.
-/

namespace LstCore

open Lib

/-- What happens to the contract by itself, other than that rewards accrue. -/
inductive Incident
  | inflow (amount : Uint128)
  | slash (validator : String) (amount : Uint128)

def Incident.event : Incident → ChainEvent
  | .inflow amount => .inflow amount
  | .slash validator amount => .slash validator amount

/-- What a transaction and the look at the state after it meet. -/
structure Round where
  /-- What has happened since the round before. -/
  incidents : List Incident
  /-- Time of the transaction's block, in seconds. -/
  sentAt : ℕ
  /-- Time of the block whose state is looked at. -/
  askedAt : ℕ
  view : Deps
  /-- What a failure is reported with. -/
  error : String

structure Alone where
  chain : Chain
  /-- The looks at the state so far. -/
  round : ℕ
  /-- The transactions that went through, the newest first: the storage each found, and what it
  answered. -/
  sent : List (Storage × Option ExecuteAnswer)

namespace Chain

/-- The chain after events, whatever the contract answers. -/
def play (c : Chain) (es : List ChainEvent) : Option Chain :=
  es.foldlM (fun c e => (c.step e).map (·.1)) c

/-- The chain in the block of a round's transaction. -/
def await (c : Chain) (round : Round) : Option Chain :=
  c.play (round.incidents.map (·.event) ++ [.time round.sentAt])

end Chain

namespace Alone

/-- The client of a keeper, which reports a transaction or a query that fails. -/
def client (keeper : Addr) (rounds : ℕ → Round) : Keeper.Client Alone where
  execute msg s :=
    let round := rounds s.round
    let tx := do
      let c ← s.chain.await round
      c.step (.call round.view ⟨keeper, []⟩ msg)
    match tx with
    | some (c, answer) => ({ s with chain := c, sent := (s.chain.store, answer) :: s.sent }, .ok ())
    | none => (s, .error round.error)
  state s :=
    let round := rounds s.round
    match s.chain.step (.time round.askedAt) with
    | some (c, _) =>
      match queryState (c.deps round.view) c.env c.store with
      | .ok state => ({ s with chain := c, round := s.round + 1 }, .ok state)
      | .error _ => ({ s with chain := c }, .error round.error)
    | none => (s, .error round.error)

end Alone

end LstCore
