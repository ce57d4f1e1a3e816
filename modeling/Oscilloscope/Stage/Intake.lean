import Oscilloscope.Source.Any
import Oscilloscope.Stage

/-!
# Oscilloscope.Stage.Intake

The stage at the head of the pipeline: it turns the blocks of a source into frames.

Each frame carries the current rate of the source and its position in the stream. A gap in the
numbering of the blocks moves the position by the missing samples and marks the frame behind it. A
block whose sample count does not fit its shape is discarded.

* `Numbering` is what one run keeps track of, `IntakeStats` what is counted for observers.
* `Numbering.receive` is the step for one block, whatever the source.
* `Intake.process` reads and receives. It breaks off if the read aborts.
-/

namespace Oscilloscope

structure IntakeStats where
  frames : UInt64 := 0
  gaps : UInt64 := 0
  malformed : UInt64 := 0
  lastSequence : UInt64 := 0
  rate : Double := .zero

structure Numbering where
  tracker : SequenceTracker := {}
  /-- The position of the next sample, per channel. -/
  nextIndex : UInt64 := 0
  stats : IntakeStats := {}

namespace Numbering

/-- A new run: the numbering starts again, the counters stay. -/
def restart (n : Numbering) : Numbering := { stats := n.stats }

/-- Note the number of a block: a gap before it moves the position. The total of the gaps is
published when there is one. -/
def note (n : Numbering) (b : Buffer) : Numbering :=
  let gap := n.tracker.gap b.sequence
  let tracker := n.tracker.observe b.sequence
  if 0 < gap then
    { tracker
      nextIndex := addSaturating n.nextIndex (mulSaturating gap b.samplesPerChannel.toUInt64)
      stats := { n.stats with gaps := tracker.totalGaps } }
  else { n with tracker }

def receive (n : Numbering) (b : Buffer) (rate : Double) : Option Frame × Numbering :=
  let gap := n.tracker.gap b.sequence
  let n := n.note b
  match Frame.ofBuffer? b rate n.nextIndex with
  | .error _ => (none, { n with stats := { n.stats with malformed := n.stats.malformed + 1 } })
  | .ok f =>
    (some { f with flags := if 0 < gap then f.flags ||| Frame.discontinuity else f.flags },
     { n with
       nextIndex := addSaturating n.nextIndex b.samplesPerChannel.toUInt64
       stats := { n.stats with frames := n.stats.frames + 1, lastSequence := b.sequence, rate } })

end Numbering

/-- The intake of a source. -/
structure Intake where
  source : Source
  numbering : Numbering := {}

namespace Intake

def name : String := "Source"

def stats (s : Intake) : IntakeStats := s.numbering.stats

/-- A run begins, if the source starts. -/
def start (s : Intake) : StageResult × Intake :=
  let (started, source) := s.source.start
  (if started then .ok else .error, { source, numbering := s.numbering.restart })

def process (s : Intake) (batch : List Frame) : Attempt (Processed Intake) :=
  match s.source.read with
  | (.overflow, _) => .panicked
  | (.error .noData, source) => .returned ⟨{ s with source }, .noData, batch, []⟩
  | (.error .endOfStream, source) => .returned ⟨{ s with source }, .endOfStream, batch, []⟩
  | (.error (.failed _), source) => .returned ⟨{ s with source }, .error, batch, []⟩
  | (.ok b, source) =>
    match s.numbering.receive b source.info.rate with
    | (none, numbering) => .returned ⟨{ source, numbering }, .noData, batch, []⟩
    | (some f, numbering) => .returned ⟨{ source, numbering }, .ok, batch, [f]⟩

def stop (s : Intake) : Intake := { s with source := s.source.stop }

end Intake

end Oscilloscope
