import RoutineChain.Lib.MapSum
import RoutineChain.Lib.Runs
import RoutineChain.Spec.StateMachine

/-!
# Runs of `execute`

A run of the state machine executes transactions one after the other, each at the timestamp
of its block, and collects the events that are returned. A transaction that fails returns
none. The tallies at the end read the token flow off the events.
-/

namespace RoutineChain

/-- A transaction with the timestamp that it is executed at. -/
abbrev Timed := Transaction × Int64

/-- The store that a run has reached, and the events returned so far. -/
structure Execution where
  store : Store
  events : List Event := []

/-- Execute one transaction. -/
def Execution.execute (P : Params) (x : Execution) (a : Timed) : Execution :=
  match (RoutineChain.execute P a.1 a.2).run x.store with
  | .ok events store => { store, events := x.events ++ events }
  | .error _ store => { x with store }

/-- A run on the empty store. -/
def executeAll (P : Params) (l : List Timed) : Execution :=
  Runs.run (Execution.execute P) { store := .empty } l

/-! ## The token flow of events -/

/-- What an event mints for `a`. -/
def Event.mintedTo (a : Id) : Event → ℕ
  | .rcwMinted receiver amount _ => if receiver = a then amount.toNat else 0
  | _ => 0

/-- What an event transfers to `a`. -/
def Event.receivedBy (a : Id) : Event → ℕ
  | .rcwTransferred _ receiver amount => if receiver = a then amount.toNat else 0
  | _ => 0

/-- What an event transfers from `a`. -/
def Event.sentBy (a : Id) : Event → ℕ
  | .rcwTransferred sender _ amount => if sender = a then amount.toNat else 0
  | _ => 0

/-- What `a` spends in an event. -/
def Event.spentBy (a : Id) : Event → ℕ
  | .rcwSpent sender amount _ => if sender = a then amount.toNat else 0
  | _ => 0

/-- What an event mints. -/
def Event.minted : Event → ℕ
  | .rcwMinted _ amount _ => amount.toNat
  | _ => 0

/-- What is spent in an event. -/
def Event.spent : Event → ℕ
  | .rcwSpent _ amount _ => amount.toNat
  | _ => 0

/-- The sum of `f` over a list of events. -/
def tally (f : Event → ℕ) (es : List Event) : ℕ := (es.map f).sum

/-- What an account holds: earned and purchased tokens. -/
def RCWBalance.holding (b : RCWBalance) : ℕ := b.earned.toNat + b.purchased.toNat

/-- What `a` holds. -/
def Records.holding (r : Records) (a : Id) : ℕ := (r.balance a).holding

/-- The sum of all balances. -/
def Records.supply (r : Records) : ℕ := MapSum.total RCWBalance.holding r.balances

end RoutineChain
