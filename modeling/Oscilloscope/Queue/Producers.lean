import Oscilloscope.Queue.Bounded

/-!
# Oscilloscope.Queue.Producers

Several producers at one queue under `block`.

A producer that finds the queue full falls asleep. Taking one item wakes one sleeper; taking the
latest item and shutting down wake all. A woken producer does not own the free place: it looks at
the queue again when it runs next, and it may have to sleep again. A sleeper may also wake for no
reason.

* `Producer` is the state of one of them, with the item it carries. Who has several items to offer
  is a producer for each of them.
* `Shop` is the queue with its producers; `Shop.step` is one move of anybody, and `Action` names
  the moves. A shutdown is two of them, and others may come in between.
-/

namespace Oscilloscope
namespace Queue

inductive Producer (α : Type) where
  /-- About to offer the item. -/
  | running (item : α)
  /-- Waiting for room. -/
  | asleep (item : α)
  /-- Woken, and about to look at the queue again. -/
  | notified (item : α)
  /-- Finished, with the answer it got. -/
  | done (answer : Answer)
deriving DecidableEq

/-- A queue with the producers at it. `delivered` are the items taken out, oldest first;
`drained` are those discarded by taking the latest, `discarded` those that ended with an offer. -/
structure Shop (α : Type) where
  queue : Bounded α
  producers : List (Producer α)
  delivered : List α := []
  drained : List α := []
  discarded : List α := []

inductive Action where
  /-- Producer `i`, running or notified, looks at the queue. -/
  | attempt (i : Nat)
  /-- Producer `i` wakes for no reason. -/
  | wake (i : Nat)
  /-- The consumer takes the front item; if it gets one, sleeper `i` is woken. -/
  | dequeue (i : Nat)
  /-- The consumer takes the latest item; if it gets one, all sleepers are woken. -/
  | dequeueLatest
  /-- The queue is marked as shut down; no sleeper is told yet. -/
  | close
  /-- The shutdown is announced: all sleepers are woken. -/
  | announce
deriving DecidableEq, Repr

namespace Producer

variable {α : Type}

def notify : Producer α → Producer α
  | asleep a => notified a
  | p => p

def isAsleep : Producer α → Bool
  | asleep _ => true
  | _ => false

def isNotified : Producer α → Bool
  | notified _ => true
  | _ => false

/-- The item that a producer is about to offer. -/
def ready? : Producer α → Option α
  | running a => some a
  | notified a => some a
  | _ => none

end Producer

namespace Shop

variable {α : Type}

/-- One producer offers its item. Under `block` it falls asleep if there is no room. -/
def attempt (s : Shop α) (i : Nat) : Option (Shop α) := do
  let a ← (← s.producers[i]?).ready?
  let o := s.queue.offer a
  match o.answer with
  | .wait => some { s with producers := s.producers.set i (.asleep a) }
  | answer =>
    some { s with queue := o.queue, producers := s.producers.set i (.done answer),
                  discarded := s.discarded ++ o.discarded }

/-- A sleeper to wake, if anybody sleeps: waking one never goes to a producer that is up. -/
def mayNotify (s : Shop α) (i : Nat) : Bool :=
  match s.producers[i]? with
  | some p => p.isAsleep || !s.producers.any Producer.isAsleep
  | none => !s.producers.any Producer.isAsleep

/-- One move, if it is possible. Under the drop policies nobody ever sleeps. -/
def step (s : Shop α) : Action → Option (Shop α)
  | .attempt i => s.attempt i
  | .wake i =>
    match s.producers[i]? with
    | some (.asleep a) => some { s with producers := s.producers.set i (.notified a) }
    | _ => none
  | .dequeue i =>
    match s.queue.dequeue with
    | (none, _) => some s
    | (some a, q) =>
      if s.mayNotify i then
        some { s with queue := q, delivered := s.delivered ++ [a],
                      producers := s.producers.modify i Producer.notify }
      else none
  | .dequeueLatest =>
    match s.queue.dequeueLatest with
    | (none, _, _) => some s
    | (some a, q, stale) =>
      some { s with queue := q, delivered := s.delivered ++ [a], drained := s.drained ++ stale,
                    producers := s.producers.map Producer.notify }
  | .close => some { s with queue := s.queue.shutdown }
  | .announce => some { s with producers := s.producers.map Producer.notify }

/-- Producers with the given items come to the queue, all still running. -/
def ofItems (queue : Bounded α) (items : List α) : Shop α :=
  { queue, producers := items.map .running }

/-- A sequence of moves; a move that is not possible is left out. -/
def run (s : Shop α) (actions : List Action) : Shop α :=
  actions.foldl (fun s a => (s.step a).getD s) s

end Shop

end Queue
end Oscilloscope
