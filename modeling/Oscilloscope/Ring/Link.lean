import Oscilloscope.Decimation.Mode
import Oscilloscope.Index
import Oscilloscope.Ring
import Oscilloscope.Source

/-!
# Oscilloscope.Ring.Link

A block source over one ring per channel, and the feeder at the other end.

The two ends run at their own pace, so each of their operations is a sequence of steps, and the
steps of the two may come in any order between each other: the feeder writes ring after ring, and
the reader looks at the closed marks, then at the fill levels, and then empties ring after ring.

* `DropCounter` counts what was written and what did not fit.
* `Lane` is a ring with its counter, `Link` all lanes with the two ends.
* `Link.feed`, `Link.close` and `Link.read` are the whole operations. They are made of the steps
  `Link.feedLane`, `Link.closeLane`, `Link.allClosed`, `Link.available` and `Link.takeLane`.
-/

namespace Oscilloscope

/-- Written and dropped samples of one ring. The counts wrap at the word size. -/
structure DropCounter where
  pushed : UInt64 := 0
  dropped : UInt64 := 0
deriving DecidableEq

/-- Record that `pushed` of `attempted` samples were written. -/
def DropCounter.record (c : DropCounter) (attempted pushed : UInt64) : DropCounter where
  pushed := c.pushed + pushed
  dropped := if pushed < attempted then c.dropped + (attempted - pushed) else c.dropped

/-- The samples dropped in all. -/
def DropCounter.total? (counters : List DropCounter) : Option UInt64 :=
  word? (counters.foldl (fun total c => total + c.dropped.toNat) 0)

structure Lane where
  ring : Ring Sample
  counter : DropCounter := {}

structure Link where
  lanes : List Lane
  /-- Samples per channel in a full block. -/
  blockLength : Nat
  /-- The rate that the feeder goes by. -/
  feedRate : Double
  /-- The rate that the source reports. -/
  sourceRate : Double
  /-- The number of the next block that is read. -/
  nextSequence : UInt64 := 0

namespace Link

/-- A producer backs off when a ring is filled beyond this ratio. -/
def throttleRatio : Float := 0.9

/-- A link over given rings. A block has at least one sample. -/
def ofRings (rings : List (Ring Sample)) (block : UInt32) (rate : Double) : Link where
  lanes := rings.map fun ring => { ring }
  blockLength := max block.toNat 1
  feedRate := rate
  sourceRate := rate

/-- A link of `channels` rings, at least one. -/
def new (channels : UInt32) (capacity : Nat) (block : UInt32) (rate : Double) : Link :=
  ofRings (List.replicate (max channels.toNat 1) (Ring.new capacity 0)) block rate

def rings (l : Link) : List (Ring Sample) := l.lanes.map (·.ring)

def counters (l : Link) : List DropCounter := l.lanes.map (·.counter)

def totalDropped? (l : Link) : Option UInt64 := DropCounter.total? l.counters

def resetCounters (l : Link) : Link :=
  { l with lanes := l.lanes.map fun lane => { lane with counter := {} } }

/-! ## The feeder -/

/-- Write the samples of one channel of a block with `perChannel` samples; what does not fit is
counted as dropped. -/
def pushLane (perChannel : UInt32) (samples : List Sample) (lane : Lane) : Nat × Lane :=
  let p := lane.ring.push samples
  (p.1, ⟨p.2, lane.counter.record perChannel.toUInt64 (UInt64.ofNat p.1)⟩)

/-- The feeder's step for channel `channel` of `b`: nothing if the block lacks the channel. -/
def feedLane (l : Link) (b : Buffer) (channel : Nat) : Link :=
  match b.channel? channel with
  | none => l
  | some samples =>
    { l with lanes := l.lanes.modify channel fun lane =>
        (pushLane b.samplesPerChannel samples lane).2 }

/-- Write the channels of `b` from `channel` on into the lanes, up to the first channel that the
block lacks; the answer is the number of samples written. -/
def feedLanes (b : Buffer) (channel : Nat) : List Lane → Nat × List Lane
  | [] => (0, [])
  | lane :: rest =>
    match b.channel? channel with
    | none => (0, lane :: rest)
    | some samples =>
      let p := pushLane b.samplesPerChannel samples lane
      let q := feedLanes b (channel + 1) rest
      (p.1 + q.1, p.2 :: q.2)

/-- Write every channel of `b` that has a ring; the answer is the number of samples written. -/
def feed (l : Link) (b : Buffer) : Nat × Link :=
  let p := feedLanes b 0 l.lanes
  (p.1, { l with lanes := p.2 })

/-- The highest fill ratio of the rings. -/
def fillRatio (l : Link) : Float :=
  l.rings.foldl (fun m r => if m < r.fillRatio then r.fillRatio else m) 0.0

/-- Whether the producer should wait: a ring is nearly full, and the rate is not so high that
dropping is better than waiting. -/
def shouldThrottle (l : Link) : Bool :=
  decide (l.feedRate.toFloat < Decimation.Mode.highRate) && decide (throttleRatio < l.fillRatio)

def closeLane (l : Link) (channel : Nat) : Link :=
  { l with lanes := l.lanes.modify channel fun lane => { lane with ring := lane.ring.close } }

def close (l : Link) : Link :=
  { l with lanes := l.lanes.map fun lane => { lane with ring := lane.ring.close } }

/-! ## The reader -/

def info (l : Link) : SourceInfo := ⟨UInt32.ofNat l.lanes.length, l.sourceRate, true⟩

def allClosed (l : Link) : Bool := l.rings.all (·.closed)

def available (l : Link) : Nat :=
  match l.rings.map Ring.length with
  | [] => 0
  | n :: rest => rest.foldl min n

/-- How many samples per channel a read takes, from what it has seen. The end of a closed stream
may come in a shorter block. -/
def plan (block : Nat) (closed : Bool) (available : Nat) : Except ReadError Nat :=
  if block ≤ available then .ok block
  else if closed then (if available = 0 then .error .endOfStream else .ok available)
  else .error .noData

def takeLane (count : Nat) (lane : Lane) : Except ReadError (List Sample) × Lane :=
  let p := lane.ring.pop count
  let popped := p.1.length
  (if popped = count then .ok p.1
   else .error (.failed s!"ring underrun: expected {count} samples, popped {popped}"),
   { lane with ring := p.2 })

/-- Take `count` samples from each lane, up to the first that has too few. -/
def takeLanes (count : Nat) : List Lane → Except ReadError (List Sample) × List Lane
  | [] => (.ok [], [])
  | lane :: rest =>
    match takeLane count lane with
    | (.error e, lane) => (.error e, lane :: rest)
    | (.ok samples, lane) =>
      let q := takeLanes count rest
      (q.1.map (samples ++ ·), lane :: q.2)

/-- The next block. The closed marks are read before the fill levels: once all are set, everything
that was written is visible. -/
def read (l : Link) : Except ReadError Buffer × Link :=
  let closed := l.allClosed
  match plan l.blockLength closed l.available with
  | .error e => (.error e, l)
  | .ok count =>
    let p := takeLanes count l.lanes
    let l := { l with lanes := p.2 }
    match p.1 with
    | .error e => (.error e, l)
    | .ok samples =>
      (.ok { sequence := l.nextSequence, channels := UInt32.ofNat l.lanes.length,
             samplesPerChannel := UInt32.ofNat count, samples },
       { l with nextSequence := l.nextSequence + 1 })

end Link

end Oscilloscope
