import Oscilloscope.Frame

/-!
# Oscilloscope.Source

What delivers blocks to the pipeline.

* `SourceInfo` describes a source, `ReadError` says why a read gave no block.
* `SequenceTracker` counts the sequence numbers that a source skips.
* `ManualSource` replays the blocks pushed into it.
-/

namespace Oscilloscope

structure SourceInfo where
  channels : UInt32
  rate : Double
  /-- Whether blocks arrive at wall-clock pace. -/
  realtime : Bool

inductive ReadError where
  /-- Nothing there right now. -/
  | noData
  /-- Nothing will come any more. -/
  | endOfStream
  | failed (reason : String)
deriving DecidableEq

def ReadError.message : ReadError → String
  | noData => "no data available"
  | endOfStream => "end of stream"
  | failed reason => "source error: " ++ reason

/-- The largest 64-bit word. -/
def maxWord : UInt64 := 0xFFFFFFFFFFFFFFFF

/-- The sum, or the largest word if that is exceeded. -/
def addSaturating (a b : UInt64) : UInt64 := if maxWord - a < b then maxWord else a + b

/-- The product, or the largest word if that is exceeded. -/
def mulSaturating (a b : UInt64) : UInt64 :=
  if a.toNat * b.toNat ≤ maxWord.toNat then a * b else maxWord

structure SequenceTracker where
  /-- The number that continues the sequence; none before the first. -/
  expected : Option UInt64 := none
  totalGaps : UInt64 := 0
deriving DecidableEq

namespace SequenceTracker

/-- How many numbers are missing before `sequence`. A number that is repeated or goes back counts
as one. -/
def gap (t : SequenceTracker) (sequence : UInt64) : UInt64 :=
  match t.expected with
  | none => 0
  | some e => if e < sequence then sequence - e else if sequence < e then 1 else 0

/-- Record `sequence`. After the largest word the sequence goes on with zero; the total stays at
the largest word once it gets there. -/
def observe (t : SequenceTracker) (sequence : UInt64) : SequenceTracker :=
  ⟨some (sequence + 1), addSaturating t.totalGaps (t.gap sequence)⟩

end SequenceTracker

structure ManualSource where
  channels : UInt32
  rate : Double
  /-- The blocks still to come, in order. -/
  blocks : List Buffer := []
  /-- Whether the source ends when it has no more blocks. -/
  finite : Bool := false
  started : Bool := false
  /-- The error to report when there are no more blocks. -/
  failure : Option String := none
  /-- Why the source refuses to start. -/
  startFailure : Option String := none

namespace ManualSource

def info (s : ManualSource) : SourceInfo := ⟨s.channels, s.rate, false⟩

def push (s : ManualSource) (b : Buffer) : ManualSource := { s with blocks := s.blocks ++ [b] }

/-- Report an error once the blocks are used up. -/
def failAfterBlocks (s : ManualSource) (reason : String) : ManualSource :=
  { s with failure := some reason }

/-- Start, unless the source refuses; the answer says whether it did. -/
def start (s : ManualSource) : Bool × ManualSource :=
  match s.startFailure with
  | some _ => (false, s)
  | none => (true, { s with started := true })

def stop (s : ManualSource) : ManualSource := { s with started := false }

/-- The next block. Without one, an error to report comes before the end of the stream. -/
def read (s : ManualSource) : Except ReadError Buffer × ManualSource :=
  match s.blocks with
  | b :: rest => (.ok b, { s with blocks := rest })
  | [] =>
    match s.failure with
    | some reason => (.error (.failed reason), s)
    | none => (.error (if s.finite then .endOfStream else .noData), s)

end ManualSource

end Oscilloscope
