/-!
# Oscilloscope.Ring

A ring buffer for one producer and one consumer.

A ring for `capacity` elements has one slot more, and one slot always stays empty: equal ends mean
an empty ring, so no count has to be kept. The producer owns `head`, the slot to write next; the
consumer owns `tail`, the slot to read next. A bulk copy that meets the end of the slots goes on at
their start.

* `Ring.length` and `Ring.free` are the two counts, each from the two ends.
* `Ring.push`, `Ring.pop` and `Ring.discard` move as much as there is room or data for.
* `Ring.contents` are the buffered elements, oldest first.
-/

namespace Oscilloscope

/-- A ring of `slots.length - 1` elements. -/
structure Ring (α : Type) where
  slots : List α
  head : Nat := 0
  tail : Nat := 0
  closed : Bool := false

namespace Ring

variable {α : Type}

/-- An empty ring, its slots filled with `filler`. A capacity of zero is raised to one. -/
def new (capacity : Nat) (filler : α) : Ring α :=
  { slots := List.replicate (max capacity 1 + 1) filler }

def slotCount (r : Ring α) : Nat := r.slots.length

def capacity (r : Ring α) : Nat := r.slotCount - 1

def length (r : Ring α) : Nat :=
  if r.tail ≤ r.head then r.head - r.tail else r.slotCount - r.tail + r.head

def free (r : Ring α) : Nat :=
  if r.tail ≤ r.head then r.slotCount - 1 - r.head + r.tail else r.tail - r.head - 1

def isEmpty (r : Ring α) : Bool := r.length == 0

def isFull (r : Ring α) : Bool := r.length == r.capacity

def fillRatio (r : Ring α) : Float := Float.ofNat r.length / Float.ofNat r.capacity

/-- Closed and read to the end. -/
def isFinished (r : Ring α) : Bool := r.closed && r.isEmpty

/-- `slots` with `values` written from index `start` on. -/
def overwrite (slots : List α) (start : Nat) (values : List α) : List α :=
  slots.take start ++ values ++ slots.drop (start + values.length)

/-- Write the leading elements of `values` that fit; the answer is their number. -/
def push (r : Ring α) (values : List α) : Nat × Ring α :=
  let n := min values.length r.free
  if n = 0 then (0, r)
  else
    let first := min n (r.slotCount - r.head)
    let slots := overwrite r.slots r.head (values.take first)
    let slots := overwrite slots 0 ((values.drop first).take (n - first))
    (n, { r with slots, head := (r.head + n) % r.slotCount })

/-- Write one element; the answer is whether there was room for it. -/
def pushOne (r : Ring α) (value : α) : Bool × Ring α :=
  ((r.push [value]).1 == 1, (r.push [value]).2)

/-- The `n` elements from the read end on. -/
def peek (r : Ring α) (n : Nat) : List α :=
  let first := min n (r.slotCount - r.tail)
  (r.slots.drop r.tail).take first ++ r.slots.take (n - first)

def discard (r : Ring α) (limit : Nat) : Nat × Ring α :=
  let n := min r.length limit
  if n = 0 then (0, r) else (n, { r with tail := (r.tail + n) % r.slotCount })

def pop (r : Ring α) (limit : Nat) : List α × Ring α :=
  (r.peek (min r.length limit), (r.discard limit).2)

/-- Read one element. -/
def popOne? (r : Ring α) : Option α × Ring α :=
  ((r.pop 1).1.head?, (r.pop 1).2)

/-- Copy elements to the front of `target`, as many as it has places and the ring has elements. The
other places keep what they hold. -/
def popInto (r : Ring α) (target : List α) : Nat × List α × Ring α :=
  let p := r.pop target.length
  (p.1.length, p.1 ++ target.drop p.1.length, p.2)

/-- No more will be written; what is buffered can still be read. -/
def close (r : Ring α) : Ring α := { r with closed := true }

def contents (r : Ring α) : List α := r.peek r.length

end Ring

end Oscilloscope
