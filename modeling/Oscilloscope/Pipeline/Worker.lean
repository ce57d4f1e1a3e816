import Oscilloscope.Queue.Bounded
import Oscilloscope.Stage

/-!
# Oscilloscope.Pipeline.Worker

The worker of one stage, step by step.

A worker takes one frame from the queue before its stage, offers it to the stage, puts what the
stage made into the queue behind it, and acts on the result. A stage that asks for a retry is
offered what it left once more; the second time counts as an error.

* `Phase` is where a worker stands between two steps. Other workers, the caller and a stop request
  can come in between at every phase.
* `Worker.step` is one step. There is none for a worker that has gone, that waits for room in a
  full queue under `block`, or whose stage waits for a stop request.
* `ExitReason` says why a worker left its loop.
-/

namespace Oscilloscope
namespace Pipeline

inductive ExitReason where
  | endOfStream
  /-- The stage answered with an error, or asked twice for a retry. -/
  | error
  /-- The stage did not start. -/
  | startFailed
  /-- A stop was requested. -/
  | stopped
  /-- The stage broke off and is lost. -/
  | panicked
deriving DecidableEq, Repr

namespace ExitReason

def all : List ExitReason := [endOfStream, error, startFailed, stopped, panicked]

def name : ExitReason → String
  | endOfStream => "EndOfStream"
  | error => "Error"
  | startFailed => "StartFailed"
  | stopped => "Stopped"
  | panicked => "Panicked"

def label : ExitReason → String
  | endOfStream => "end of stream"
  | error => "error"
  | startFailed => "start failed"
  | stopped => "stopped"
  | panicked => "panicked"

end ExitReason

inductive Phase where
  /-- Before anything else. -/
  | spawned
  /-- About to start the stage. -/
  | starting
  /-- About to look for a stop request. -/
  | checking
  /-- About to take a frame from the queue before the stage. -/
  | fetching
  /-- Found that queue empty, and about to look whether it is shut down. -/
  | starved
  /-- About to offer `batch` to the stage, for the second time if `again`. -/
  | calling (batch : List Frame) (again : Bool)
  /-- About to put the first of `pending` into the queue behind the stage, or, when none is left,
  to act on `result`. -/
  | offering (left : List Frame) (again : Bool) (result : StageResult) (pending : List Frame)
  /-- Out of the loop, and about to stop the stage. -/
  | leaving (reason : ExitReason)
  | gone (reason : ExitReason)

def Phase.isGone : Phase → Bool
  | gone _ => true
  | _ => false

/-- A worker with its stage. -/
structure Worker (σ : Type) where
  stage : σ
  phase : Phase := .spawned
  /-- How many calls it has made. -/
  iteration : Nat := 0

/-- What a worker sees: its place, the stop request, and the queues on both sides. The first stage
has no queue before it. -/
structure Surroundings where
  index : Nat
  stopRequested : Bool
  input : Option (Queue.Bounded Frame)
  output : Queue.Bounded Frame

/-- What one step of a worker changes. -/
structure Move (σ : Type) where
  worker : Worker σ
  input : Option (Queue.Bounded Frame)
  output : Queue.Bounded Frame
  /-- How many frames the stage made in this step. -/
  made : Nat := 0
  /-- Whether the stage was stopped in this step. -/
  stops : Bool := false

namespace Worker

variable {σ : Type}

/-- A step that changes the worker alone. -/
def still (w : Worker σ) (around : Surroundings) (phase : Phase) : Move σ :=
  { worker := { w with phase }, input := around.input, output := around.output }

/-- What follows a call when all that it made has been offered. -/
def afterCall (stopRequested : Bool) (left : List Frame) (again : Bool) : StageResult → Phase
  | .ok => .checking
  | .noData => .checking
  | .endOfStream => .leaving .endOfStream
  | .error => .leaving .error
  | .retry =>
    if again then .leaving .error
    else if stopRequested then .leaving .stopped
    else .calling left true

/-- Take a frame from the queue before the stage; the first stage is offered an empty batch. -/
def fetch (w : Worker σ) (around : Surroundings) : Move σ :=
  match around.input with
  | none => w.still around (.calling [] false)
  | some q =>
    match q.dequeue with
    | (none, _) => w.still around .starved
    | (some f, q) => { w.still around (.calling [f] false) with input := some q }

/-- Offer `batch` to the stage. -/
def call (b : Behavior σ) (w : Worker σ) (around : Surroundings) (batch : List Frame)
    (again : Bool) : Option (Move σ) :=
  match b.process w.stage ⟨w.iteration, around.index, around.stopRequested⟩ batch with
  | .waiting => none
  | .panicked => some (w.still around (.gone .panicked))
  | .returned p =>
    some { w.still around (.offering p.left again p.result p.made) with
      worker := ⟨p.stage, .offering p.left again p.result p.made, w.iteration + 1⟩
      made := p.made.length }

/-- Put `f` into the queue behind the stage. When that queue is shut down, the rest of the call is
given up with it. -/
def offer (w : Worker σ) (around : Surroundings) (left : List Frame) (again : Bool)
    (result : StageResult) (f : Frame) (pending : List Frame) : Option (Move σ) :=
  let o := around.output.offer f
  match o.answer with
  | .wait => none
  | .shutdown => some (w.still around (.offering left again result []))
  | _ => some { w.still around (.offering left again result pending) with output := o.queue }

def step (b : Behavior σ) (w : Worker σ) (around : Surroundings) : Option (Move σ) :=
  match w.phase with
  | .spawned => some (w.still around .starting)
  | .starting =>
    match b.start w.stage with
    | .waiting => none
    | .panicked => some (w.still around (.gone .panicked))
    | .returned (result, stage) =>
      some ({ w with stage }.still around
        (if result = StageResult.ok then .checking else .leaving .startFailed))
  | .checking =>
    some (w.still around (if around.stopRequested then .leaving .stopped else .fetching))
  | .fetching => some (w.fetch around)
  | .starved =>
    some (w.still around
      (if around.input.any (·.isShutdown) then .leaving .stopped else .checking))
  | .calling batch again => w.call b around batch again
  | .offering left again result [] =>
    some (w.still around (afterCall around.stopRequested left again result))
  | .offering left again result (f :: pending) => w.offer around left again result f pending
  | .leaving reason =>
    match b.stop w.stage with
    | .waiting => none
    | .panicked => some { w.still around (.gone .panicked) with stops := true }
    | .returned stage => some { { w with stage }.still around (.gone reason) with stops := true }
  | .gone _ => none

/-- Whether the worker only goes round in its loop, until a frame comes or a stop is requested. -/
def isIdle (quiet : σ → Bool) (w : Worker σ) (around : Surroundings) : Bool :=
  match w.phase with
  | .checking | .fetching | .starved =>
    !around.stopRequested &&
      match around.input with
      | none => quiet w.stage
      | some q => q.items.isEmpty && !q.isShutdown
  | _ => false

end Worker

end Pipeline
end Oscilloscope
