import Oscilloscope.Source.Any

/-!
# Oscilloscope.Ring.Ingestion

The thread that moves blocks from a source into a ring link.

It starts the source, takes over its rate, and then feeds block after block; when a ring is nearly
full it waits before it reads on. It ends with the source, with an error, or on request, and then
closes the link. A read that aborts breaks the thread off; its end of the link closes all the same.

* `Ingestion.step` is one step of the thread.
* `Ingestion.advance` runs it until it has ended, waits for the reader, or finds no data.
-/

namespace Oscilloscope

/-- Where the thread stands. -/
inductive IngestionPhase where
  | starting
  /-- About to read a block. -/
  | reading
  /-- About to look whether the rings are nearly full. -/
  | throttling
  | ended
  /-- It never came to its end. -/
  | brokenOff
deriving DecidableEq, Repr

/-- The thread with its source and the link that it feeds. -/
structure Ingestion where
  source : Source
  link : Link
  phase : IngestionPhase := .starting
  stopRequested : Bool := false
  tracker : SequenceTracker := {}
  frames : UInt64 := 0
  gaps : UInt64 := 0
  pushed : UInt64 := 0
  lastTimestamp : UInt64 := 0

namespace Ingestion

/-- The end of the thread: the link is closed. -/
def close (t : Ingestion) : Ingestion := { t with link := t.link.close, phase := .ended }

/-- Out of the loop: the source is stopped, and the thread ends. -/
def leave (t : Ingestion) : Ingestion := { t with source := t.source.stop }.close

/-- Feed one block and count it. -/
def feed (t : Ingestion) (b : Buffer) : Ingestion :=
  let gap := t.tracker.gap b.sequence
  let tracker := t.tracker.observe b.sequence
  let (pushed, link) := t.link.feed b
  { t with
    link, tracker
    gaps := if 0 < gap then tracker.totalGaps else t.gaps
    lastTimestamp := b.timestamp
    pushed := t.pushed + UInt64.ofNat pushed
    frames := t.frames + 1
    phase := .throttling }

def step (t : Ingestion) : Ingestion :=
  match t.phase with
  | .starting =>
    match t.source.start with
    | (false, source) => { t with source }.close
    | (true, source) =>
      { t with source, link := { t.link with feedRate := source.info.rate }, phase := .reading }
  | .reading =>
    if t.stopRequested then t.leave
    else
      match t.source.read with
      | (.ok b, source) => { t with source }.feed b
      | (.error .noData, source) => { t with source }
      | (.error _, source) => { t with source }.leave
      | (.overflow, source) => { t with source, link := t.link.close, phase := .brokenOff }
  | .throttling =>
    if !t.stopRequested && t.link.shouldThrottle then t else { t with phase := .reading }
  | .ended => t
  | .brokenOff => t

/-- Whether a step would change nothing until the other end of the link or the source does. -/
def isWaiting (t : Ingestion) : Bool :=
  match t.phase with
  | .starting => false
  | .reading => !t.stopRequested && t.source.isQuiet
  | .throttling => !t.stopRequested && t.link.shouldThrottle
  | .ended => true
  | .brokenOff => true

def advance : Nat → Ingestion → Ingestion
  | 0, t => t
  | fuel + 1, t => if t.isWaiting then t else advance fuel t.step

/-- Ask the thread to end. -/
def requestStop (t : Ingestion) : Ingestion := { t with stopRequested := true }

/-- Read a block at the other end of the link. -/
def read (t : Ingestion) : Except ReadError Buffer × Ingestion :=
  let (outcome, link) := t.link.read
  (outcome, { t with link })

end Ingestion

end Oscilloscope
