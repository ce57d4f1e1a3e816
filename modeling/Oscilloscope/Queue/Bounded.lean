import Oscilloscope.Queue.Policy

/-!
# Oscilloscope.Queue.Bounded

A bounded first-in, first-out queue with a fixed rule for the case that it is full.

* `Bounded` is the queue. `items` are front to back; `accepted` and `dropped` only grow.
* `Bounded.offer` tries to put an item in. Under `block` a full queue answers `wait` and nothing
  changes: the producer tries again when there is room or the queue is shut down.
* `Bounded.dequeue` takes the front, `Bounded.dequeueLatest` takes the back and discards the rest.
* Every operation also says which items it discards, so that nothing disappears unaccounted.
-/

namespace Oscilloscope
namespace Queue

structure Bounded (α : Type) where
  capacity : Nat
  policy : Policy
  items : List α := []
  isShutdown : Bool := false
  /-- How many items have been put in. -/
  accepted : Nat := 0
  /-- How many items the drop policies have dropped. -/
  dropped : Nat := 0

/-- The answer to an offered item. -/
inductive Answer where
  | accepted
  /-- Full; the item is discarded. -/
  | full
  /-- No item is taken any more. -/
  | shutdown
  /-- Full; the producer has to wait. -/
  | wait
deriving DecidableEq, Repr

/-- The text of a refusal. -/
def Answer.message : Answer → String
  | accepted => "ok"
  | full => "queue full, item dropped"
  | shutdown => "queue shut down"
  | wait => "queue full, waiting for room"

/-- What an offer comes to: the answer, the queue after it, and the items discarded by it. -/
structure Offer (α : Type) where
  answer : Answer
  queue : Bounded α
  discarded : List α

namespace Bounded

variable {α : Type}

/-- An empty queue. A capacity of zero is raised to one. -/
def new (capacity : Nat) (policy : Policy) : Bounded α := { capacity := max capacity 1, policy }

def length (q : Bounded α) : Nat := q.items.length

def isFull (q : Bounded α) : Bool := decide (q.capacity ≤ q.length)

def fillRatio (q : Bounded α) : Float := Float.ofNat q.length / Float.ofNat q.capacity

/-- Put `a` at the back and count it. -/
def append (q : Bounded α) (a : α) : Bounded α :=
  { q with items := q.items ++ [a], accepted := q.accepted + 1 }

def offer (q : Bounded α) (a : α) : Offer α :=
  if q.policy = .block ∧ q.isShutdown then ⟨.shutdown, q, [a]⟩
  else if q.isFull then
    match q.policy with
    | .dropLatest => ⟨.full, { q with dropped := q.dropped + 1 }, [a]⟩
    | .dropOldest =>
      ⟨.accepted, { q with items := q.items.tail, dropped := q.dropped + 1 }.append a,
        q.items.take 1⟩
    | .block => ⟨.wait, q, []⟩
  else ⟨.accepted, q.append a, []⟩

def dequeue (q : Bounded α) : Option α × Bounded α :=
  match q.items with
  | [] => (none, q)
  | a :: rest => (some a, { q with items := rest })

/-- Take the item at the back and discard the others, which are returned front to back. -/
def dequeueLatest (q : Bounded α) : Option α × Bounded α × List α :=
  (q.items.getLast?, { q with items := [] }, q.items.dropLast)

/-- From now on a producer under `block` is refused instead of waiting. -/
def shutdown (q : Bounded α) : Bounded α := { q with isShutdown := true }

end Bounded

end Queue
end Oscilloscope
