import BackTester.Model.Common.BlockingQueue
import BackTester.Model.OrderBook.SimpleOrderBookRouter
import BackTester.ToMathlib.TransitionSystem

/-! # The sharded router

The router of `ShardedOrderBookRouter.hpp` with its worker threads. Every access to a queue or to a
promise is one step, and so is the callback of a pop; what the calling thread does with its own map
happens together with the access behind it. The lines of `BookAnomalyLog` are kept by the router
that writes them.
-/

namespace BackTester

/-- The promises of a `sync_all` are named by its number and the shard that they are for. -/
inductive ShardItem (NumShards : ℕ)
  | event (e : MarketDataEvent)
  | promise (round : ℕ) (shard : Fin NumShards)

structure ShardedOrderBookRouter (BookType : Type) (NumShards : ℕ) where
  queues : Fin NumShards → BlockingQueue (ShardItem NumShards) := fun _ => {}
  shardRouters : Fin NumShards → SimpleOrderBookRouter BookType := fun _ => {}
  orderToInstrument : UnorderedMap UInt64 UInt32 := ∅
  closed : Bool := false
  anomalies : BookAnomalyLog := {}

namespace ShardedOrderBookRouter

/-- Where the calling thread stands: in a loop of `sync_all`, in the loop of a snapshot, or in a
loop of `close`, always with the index of the next shard. An `apply` that is rejected throws, and
nothing follows it: a caller that catches the exception and goes on is not modelled. -/
inductive Caller
  | idle
  | syncing (shard : ℕ)
  | waiting (shard : ℕ)
  | reading (shard : ℕ)
  | closing (shard : ℕ)
  | joining (shard : ℕ)
  | threw (error : String)
deriving DecidableEq

inductive Worker (NumShards : ℕ)
  | popping
  | visiting (item : ShardItem NumShards)
  | finished

/-- The router with its threads, and what they did so far: `applied` are the events whose calls of
`apply` returned, `pushed` what the queue of each shard was given, `visited` what its worker has
dealt with. -/
structure State (BookType : Type) (NumShards : ℕ) where
  router : ShardedOrderBookRouter BookType NumShards := {}
  caller : Caller := .idle
  workers : Fin NumShards → Worker NumShards := fun _ => .popping
  round : ℕ := 0
  fulfilled : List (ℕ × Fin NumShards) := []
  applied : List MarketDataEvent := []
  pushed : Fin NumShards → List (ShardItem NumShards) := fun _ => []
  visited : Fin NumShards → List (ShardItem NumShards) := fun _ => []

variable {BookType : Type} {NumShards : ℕ} (state : State BookType NumShards)

/-- The front map once it has seen an event. -/
def see (orderToInstrument : UnorderedMap UInt64 UInt32) (e : MarketDataEvent) : UnorderedMap UInt64 UInt32 :=
  if e.instrumentId ≠ 0 ∧ e.orderId ≠ 0 then orderToInstrument.assign e.orderId e.instrumentId else orderToInstrument

/-- `instr_id`. -/
def lookUp (orderToInstrument : UnorderedMap UInt64 UInt32) (e : MarketDataEvent) : UInt32 :=
  if e.instrumentId ≠ 0 then e.instrumentId
  else if e.orderId ≠ 0 then (orderToInstrument.find? e.orderId).getD 0
  else 0

def shardOf (NumShards : ℕ) [NeZero NumShards] (instrId : UInt32) : Fin NumShards := Fin.ofNat NumShards instrId.toNat

/-- `queues_[shard].push`. -/
def push (shard : Fin NumShards) (item : ShardItem NumShards) : Except String (State BookType NumShards) := do
  let queue ← (state.router.queues shard).pushImpl item
  return { state with
    router := { state.router with queues := Function.update state.router.queues shard queue }
    pushed := Function.update state.pushed shard (state.pushed shard ++ [item]) }

def applyImpl [NeZero NumShards] (e : MarketDataEvent) : State BookType NumShards :=
  let seen := see state.router.orderToInstrument e
  let instrId := lookUp seen e
  let state := { state with router.orderToInstrument := seen }
  if instrId = 0 ∧ e.orderId ≠ 0 then
    { state with
      router.anomalies := state.router.anomalies.logRouter .unresolvedInstrument e
      applied := state.applied ++ [e] }
  else
    match push state (shardOf NumShards instrId) (.event e) with
    | .ok state => { state with applied := state.applied ++ [e] }
    | .error error => { state with caller := .threw error }

/-- A snapshot or the best prices: `sync_all` comes first, and does nothing once the router is closed. -/
def snapshot : State BookType NumShards :=
  if state.router.closed then { state with caller := .reading 0 }
  else { state with round := state.round + 1, caller := .syncing 0 }

def close : State BookType NumShards :=
  if state.router.closed then state
  else { state with router.closed := true, caller := .closing 0 }

/-- The next step of the calling thread, if it is inside a call and need not wait. -/
def call : Option (State BookType NumShards) :=
  match state.caller with
  | .idle => none
  | .syncing shard =>
    if inside : shard < NumShards then
      match push state ⟨shard, inside⟩ (.promise state.round ⟨shard, inside⟩) with
      | .ok state => some { state with caller := .syncing (shard + 1) }
      -- the queue is closed, and `sync_all` returns
      | .error _ => some { state with caller := .reading 0 }
    else some { state with caller := .waiting 0 }
  | .waiting shard =>
    if inside : shard < NumShards then
      if (state.round, ⟨shard, inside⟩) ∈ state.fulfilled then
        some { state with caller := .waiting (shard + 1) } else none
    else some { state with caller := .reading 0 }
  | .reading shard =>
    if shard < NumShards then some { state with caller := .reading (shard + 1) }
    else some { state with caller := .idle }
  | .closing shard =>
    if inside : shard < NumShards then
      some { state with
        router.queues :=
          Function.update state.router.queues ⟨shard, inside⟩ (state.router.queues ⟨shard, inside⟩).closeImpl
        caller := .closing (shard + 1) }
    else some { state with caller := .joining 0 }
  | .joining shard =>
    if inside : shard < NumShards then
      match state.workers ⟨shard, inside⟩ with
      | .finished => some { state with caller := .joining (shard + 1) }
      | _ => none
    else some { state with caller := .idle }
  | .threw _ => none

/-- `worker_loop`: the next step of the worker of a shard, if it need not wait. -/
def work [OrderBook BookType] (shard : Fin NumShards) : Option (State BookType NumShards) :=
  match state.workers shard with
  | .popping =>
    (state.router.queues shard).popImpl.map fun (item, queue) =>
      { state with
        router.queues := Function.update state.router.queues shard queue
        workers := Function.update state.workers shard (item.elim .finished .visiting) }
  | .visiting item =>
    let state := { state with
      workers := Function.update state.workers shard .popping
      visited := Function.update state.visited shard (state.visited shard ++ [item]) }
    match item with
    | .event e =>
      some { state with
        router.shardRouters :=
          Function.update state.router.shardRouters shard ((state.router.shardRouters shard).applyImpl e) }
    | .promise round shard => some { state with fulfilled := (round, shard) :: state.fulfilled }
  | .finished => none

/-- Whose step is next: the calling thread starts a call of its own choice while it is in none. -/
inductive Move (NumShards : ℕ)
  | apply (e : MarketDataEvent)
  | snapshot
  | close
  | call
  | work (shard : Fin NumShards)

def move [OrderBook BookType] [NeZero NumShards] : Move NumShards → Option (State BookType NumShards)
  | .apply e =>
    match state.caller with
    | .idle => some (applyImpl state e)
    | _ => none
  | .snapshot =>
    match state.caller with
    | .idle => some (snapshot state)
    | _ => none
  | .close =>
    match state.caller with
    | .idle => some (close state)
    | _ => none
  | .call => call state
  | .work shard => work state shard

/-- The router from its construction on, under every sequence of calls and every interleaving of the workers. -/
def system (BookType : Type) [OrderBook BookType] (NumShards : ℕ) [NeZero NumShards] :
    TransitionSystem (State BookType NumShards) :=
  .ofMoves {} fun state choice => move state choice

end ShardedOrderBookRouter

end BackTester
