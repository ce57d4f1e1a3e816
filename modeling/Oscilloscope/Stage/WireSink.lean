import Oscilloscope.Ring.Link
import Oscilloscope.Stage
import Oscilloscope.Wire.Codec
import Oscilloscope.Wire.Transport

/-!
# Oscilloscope.Stage.WireSink

The stage that writes its frames to a byte stream.

Every frame of a batch carries the drops counted when the call began. A frame that cannot be
written has been taken from the batch; the frames behind it stay. A flush that would block asks for
the batch again.
-/

namespace Oscilloscope

/-- A sink with its writer. -/
structure WireSink where
  writer : Wire.Writer
  /-- The counters whose drops the headers report. -/
  counters : List DropCounter := []
  framesWritten : Nat := 0

namespace WireSink

def name : String := "WireSink"

def drops? (s : WireSink) : Option UInt64 := DropCounter.total? s.counters

/-- Write frames until one fails; the answer says whether all were written, and the frames left. -/
def writeFrames (drops : UInt64) (s : WireSink) : List Frame → Bool × List Frame × WireSink
  | [] => (true, [], s)
  | f :: rest =>
    match s.writer.writeAll (Wire.encodeFrame f drops) with
    | (some _, writer) => (false, rest, { s with writer })
    | (none, writer) =>
      writeFrames drops { s with writer, framesWritten := s.framesWritten + 1 } rest

/-- Write the frames of a batch under the given drops, and pass them on. -/
def writeBatch (s : WireSink) (drops : UInt64) (batch : List Frame) : Processed WireSink :=
  match writeFrames drops s batch with
  | (false, left, s) => ⟨s, .error, left, []⟩
  | (true, left, s) =>
    let (outcome, writer) := s.writer.flush
    let result := match outcome with
      | none => StageResult.ok
      | some .wouldBlock => .retry
      | some _ => .error
    ⟨{ s with writer }, result, left, []⟩

/-- One call. It breaks off before it takes a frame if the drops do not fit their word. -/
def process (s : WireSink) (batch : List Frame) : Attempt (Processed WireSink) :=
  if batch.isEmpty then .returned ⟨s, .noData, [], []⟩
  else
    match s.drops? with
    | none => .panicked
    | some drops => .returned (s.writeBatch drops batch)

/-- Pass on what is buffered; a fault changes nothing any more. -/
def stop (s : WireSink) : WireSink := { s with writer := s.writer.flush.2 }

end WireSink

end Oscilloscope
