import Oscilloscope.Frame
import Oscilloscope.Queue.Bounded

/-!
# Oscilloscope.Frame.Custody

Who holds which frame, and which lent memory has been given back.

A frame is in exactly one place: in a variable, in the batch offered to a stage, among the frames a
stage has made, or in a queue. A frame ends when it is dropped, overwritten, refused or evicted by
a queue, or drained from one; memory that it has borrowed is given back then, and also when the
frame is materialized.

* `Custody` are the places, with the loans made and given back so far.
* `Custody.Op` are the operations, `Custody.step` is one of them with its reply.
* `Custody.held` are the loans of all frames that are somewhere.
-/

namespace Oscilloscope

structure Custody where
  /-- The variables with their names. -/
  named : List (String × Frame) := []
  /-- The batch offered to a stage, in order. -/
  view : List Frame := []
  /-- The frames made by a stage, in order. -/
  written : List Frame := []
  queue : Queue.Bounded Frame := Queue.Bounded.new 1 .dropOldest
  /-- How many loans have been made; they are numbered from 0. -/
  lent : Nat := 0
  /-- The loans given back, in order. -/
  released : List Loan := []

namespace Custody

inductive Op where
  /-- Put a frame of zeros into a variable. -/
  | zeros (target : String) (channels samplesPerChannel : UInt32)
  | ofSamples (target : String) (channels samplesPerChannel : UInt32) (samples : List Sample)
  | ofBuffer (target : String) (buffer : Buffer) (rate : Double) (firstIndex : UInt64)
  /-- Put a frame over newly lent memory into a variable; the memory reads `0` behind `memory`. -/
  | borrow (target : String) (channels samplesPerChannel : UInt32) (memory : List Sample)
  /-- Change the metadata of a frame, which keeps its samples. -/
  | describe (id : String) (sequence timestamp : UInt64) (rate : Double) (firstIndex : UInt64)
      (flags : UInt32)
  /-- Change one sample. -/
  | write (id : String) (index : Nat) (sample : Sample)
  | materialize (id : String)
  /-- Put an owned copy into a variable. A copy over its own variable leaves the frame there. -/
  | copy (id target : String)
  | move (id target : String)
  | drop (id : String)
  /-- Move a frame to the end of the batch. -/
  | offer (id : String)
  /-- Move the first frame of the batch into a variable. -/
  | take (target : String)
  /-- Move a frame, materialized, to the end of the frames made. -/
  | push (id : String)
  /-- Take the frames made, each into a variable; those for which there is none are dropped. -/
  | collect (targets : List String)
  | enqueue (id : String)
  | dequeue (target : String)
  | dequeueLatest (target : String)
  | shutdown
  /-- Replace the queue by an empty one; its frames are dropped. -/
  | renew (capacity : Nat) (policy : Queue.Policy)

/-- Drop the frames made. -/
def Op.clearWritten : Op := .collect []

/-- What an operation answers. -/
inductive Reply where
  | done
  /-- There is no such variable, or nothing to take. -/
  | absent
  | failed (error : FrameError)
  | outOfRange
  | queue (answer : Queue.Answer)
deriving DecidableEq

def find? (c : Custody) (id : String) : Option Frame := c.named.lookup id

/-- Give back the memory of frames that end. -/
def release (c : Custody) (frames : List Frame) : Custody :=
  { c with released := c.released ++ frames.flatMap Frame.loans }

/-- The variables without `id`. -/
def without (c : Custody) (id : String) : Custody :=
  { c with named := c.named.filter (·.1 != id) }

/-- Put `f` into a variable; the frame that was there ends. -/
def put (c : Custody) (id : String) (f : Frame) : Custody :=
  let c := (c.without id).release (c.find? id).toList
  { c with named := (id, f) :: c.named }

/-- Put frames into variables, one after the other. -/
def putAll (c : Custody) (entries : List (String × Frame)) : Custody :=
  entries.foldl (fun c e => c.put e.1 e.2) c

/-- Replace the frame of a variable by another form of the same frame. -/
def replace (c : Custody) (id : String) (f : Frame) : Custody :=
  { c.without id with named := (id, f) :: (c.without id).named }

/-- Put a newly made frame into a variable, unless it could not be made. -/
def putMade (c : Custody) (id : String) : Except FrameError Frame → Reply × Custody
  | .ok f => (.done, c.put id f)
  | .error e => (.failed e, c)

/-- Go on with the frame of a variable, if there is one. -/
def onFrame (c : Custody) (id : String) (f : Frame → Reply × Custody) : Reply × Custody :=
  match c.find? id with
  | some frame => f frame
  | none => (.absent, c)

def step (c : Custody) : Op → Reply × Custody
  | .zeros target channels samplesPerChannel =>
    (.done, c.put target (.zeros channels samplesPerChannel))
  | .ofSamples target channels samplesPerChannel samples =>
    c.putMade target (Frame.ofSamples? channels samplesPerChannel samples)
  | .ofBuffer target buffer rate firstIndex =>
    c.putMade target (Frame.ofBuffer? buffer rate firstIndex)
  | .borrow target channels samplesPerChannel memory =>
    (.done, { c with lent := c.lent + 1 }.put target
      (.ofLoan channels samplesPerChannel c.lent fun i => memory.getD i 0))
  | .describe id sequence timestamp rate firstIndex flags =>
    c.onFrame id fun f =>
      (.done, c.replace id { f with sequence, timestamp, rate, firstIndex, flags })
  | .write id index sample =>
    c.onFrame id fun f =>
      match f.modify? index sample with
      | .error e => (.failed e, c)
      | .ok none => (.outOfRange, c)
      | .ok (some g) => (.done, c.replace id g)
  | .materialize id =>
    c.onFrame id fun f => (.done, (c.replace id f.materialize).release [f])
  | .copy id target =>
    c.onFrame id fun f => (.done, if target = id then c else c.put target f.materialize)
  | .move id target => c.onFrame id fun f => (.done, (c.without id).put target f)
  | .drop id => c.onFrame id fun f => (.done, (c.without id).release [f])
  | .offer id =>
    c.onFrame id fun f => (.done, { c.without id with view := c.view ++ [f] })
  | .take target =>
    match c.view with
    | [] => (.absent, c)
    | f :: rest => (.done, { c with view := rest }.put target f)
  | .push id =>
    c.onFrame id fun f =>
      (.done, { c.without id with written := c.written ++ [f.materialize] }.release [f])
  | .collect targets =>
    let left := { c with written := [] }.release (c.written.drop targets.length)
    (.done, left.putAll (targets.zip c.written))
  | .enqueue id =>
    c.onFrame id fun f =>
      let o := c.queue.offer f
      match o.answer with
      | .wait => (.queue .wait, c)
      | answer => (.queue answer, { c.without id with queue := o.queue }.release o.discarded)
  | .dequeue target =>
    match c.queue.dequeue with
    | (none, _) => (.absent, c)
    | (some f, queue) => (.done, { c with queue }.put target f)
  | .dequeueLatest target =>
    match c.queue.dequeueLatest with
    | (none, _, _) => (.absent, c)
    | (some f, queue, stale) => (.done, ({ c with queue }.release stale).put target f)
  | .shutdown => (.done, { c with queue := c.queue.shutdown })
  | .renew capacity policy =>
    (.done, { c with queue := .new capacity policy }.release c.queue.items)

/-- A sequence of operations. -/
def run (c : Custody) (ops : List Op) : Custody := ops.foldl (fun c op => (c.step op).2) c

/-- All frames that are somewhere. -/
def frames (c : Custody) : List Frame :=
  c.named.map Prod.snd ++ c.view ++ c.written ++ c.queue.items

def held (c : Custody) : List Loan := c.frames.flatMap Frame.loans

/-- Drop everything that is held. -/
def close (c : Custody) : Custody :=
  let empty : Custody :=
    { c with named := [], view := [], written := [], queue := { c.queue with items := [] } }
  empty.release c.frames

end Custody

end Oscilloscope
