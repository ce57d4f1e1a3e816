/-!
# Oscilloscope.Queue.Policy

What a full queue does with one more item, and what is chosen when a queue is made.
-/

namespace Oscilloscope
namespace Queue

/-- The rule of a full queue. -/
inductive Policy where
  /-- The item is refused. -/
  | dropLatest
  /-- The oldest item makes room. -/
  | dropOldest
  /-- The producer waits for room or for shutdown. -/
  | block
deriving DecidableEq, Repr, Inhabited

namespace Policy

def all : List Policy := [dropLatest, dropOldest, block]

def name : Policy → String
  | dropLatest => "DropLatest"
  | dropOldest => "DropOldest"
  | block => "Block"

def ofName? (s : String) : Option Policy := all.find? (·.name == s)

end Policy

/-- The choices for a queue. -/
structure Options where
  capacity : Nat := 64
  policy : Policy := .dropOldest
deriving DecidableEq, Repr

end Queue
end Oscilloscope
