import Oscilloscope.Ring.Link
import Oscilloscope.Wire.StreamSource

/-!
# Oscilloscope.Source.Any

The sources of a pipeline under one type: blocks pushed by hand, a byte stream, or a ring link.
-/

namespace Oscilloscope

inductive Source where
  | manual (source : ManualSource)
  | stream (source : Wire.StreamSource)
  | ring (link : Link)

namespace Source

def info : Source → SourceInfo
  | manual s => s.info
  | stream s => s.info
  | ring l => l.info

/-- Start; the answer says whether the source did. Only a manual source can refuse. -/
def start : Source → Bool × Source
  | manual s => (s.start.1, manual s.start.2)
  | stream s => (true, stream s)
  | ring l => (true, ring l)

def stop : Source → Source
  | manual s => manual s.stop
  | stream s => stream s
  | ring l => ring l

/-- The next block. Only the read of a stream can abort. -/
def read : Source → Outcome ReadError Buffer × Source
  | manual s => (.ofExcept s.read.1, manual s.read.2)
  | stream s => (s.read.1, stream s.read.2)
  | ring l => (.ofExcept l.read.1, ring l.read.2)

/-- Whether every further read gives no data until something is put into the source. -/
def isQuiet : Source → Bool
  | manual s => s.blocks.isEmpty && s.failure.isNone && !s.finite
  | stream _ => false
  | ring l => match Link.plan l.blockLength l.allClosed l.available with
    | .error .noData => true
    | _ => false

end Source

end Oscilloscope
