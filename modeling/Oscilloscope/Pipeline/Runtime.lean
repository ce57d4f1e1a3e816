import Oscilloscope.Pipeline.Worker

/-!
# Oscilloscope.Pipeline.Runtime

A pipeline from the outside: its stages in a row, each with a queue behind it and, while it runs,
with a worker.

* `Slot` is the place of one stage. The stage is at home, at work, or lost.
* `Runtime` is the pipeline. `Runtime.step` lets one worker make one step; every order of workers
  is a possible run.
* `Runtime.add`, `Runtime.start`, `Runtime.poll`, `Runtime.pollLatest` and `Runtime.stop` are what
  a caller can do. `Runtime.requestStop` and `Runtime.shutdownQueue` are the steps of a stop that
  workers see one by one; `Runtime.collect` ends it.
* `Runtime.settle` lets workers run until each has gone, waits, or idles.
-/

namespace Oscilloscope
namespace Pipeline

/-- Why an operation on a pipeline fails. -/
inductive PipelineError where
  | frame (error : FrameError)
  | alreadyRunning
  | emptyPipeline
  /-- A worker could not be started. -/
  | workerSpawn (reason : String)
  /-- The named stage was lost in an earlier run. -/
  | stageLost (name : String)
  | source (reason : String)
deriving DecidableEq

def PipelineError.message : PipelineError → String
  | frame e => e.message
  | alreadyRunning => "Pipeline already running"
  | emptyPipeline => "Pipeline has no stages"
  | workerSpawn reason => "Failed to spawn worker thread: " ++ reason
  | stageLost name => "Stage '" ++ name ++ "' was lost when its worker panicked"
  | source reason => "Source error: " ++ reason

/-- The life of a worker, as telemetry shows it. -/
inductive WorkerState where
  | idle
  | running
  /-- Running, with a stop requested. -/
  | stopping
  | stopped
deriving DecidableEq, Repr

namespace WorkerState

def all : List WorkerState := [idle, running, stopping, stopped]

def name : WorkerState → String
  | idle => "Idle"
  | running => "Running"
  | stopping => "Stopping"
  | stopped => "Stopped"

def label : WorkerState → String
  | idle => "idle"
  | running => "running"
  | stopping => "stopping"
  | stopped => "stopped"

end WorkerState

/-- Where a stage is. -/
inductive Tenancy (σ : Type) where
  | home (stage : σ)
  | atWork (worker : Worker σ)
  | lost

structure Slot (σ : Type) where
  name : String
  options : Queue.Options
  tenancy : Tenancy σ
  /-- Frames made in the last run. -/
  made : Nat := 0
  state : WorkerState := .idle
  /-- How often the stage has been stopped, over all runs. -/
  stopCalls : Nat := 0

namespace Slot

variable {σ : Type}

def worker? (s : Slot σ) : Option (Worker σ) :=
  match s.tenancy with
  | .atWork w => some w
  | _ => none

/-- The stage as it was last seen. -/
def stage? (s : Slot σ) : Option σ :=
  match s.tenancy with
  | .home stage => some stage
  | .atWork w => some w.stage
  | .lost => none

def isLost (s : Slot σ) : Bool :=
  match s.tenancy with
  | .lost => true
  | _ => false

/-- A place for a stage that has not run yet. -/
def new (b : Behavior σ) (stage : σ) (options : Queue.Options) : Slot σ :=
  { name := b.name stage, options, tenancy := .home stage }

/-- The worker begins: the counters start again. -/
def launch (s : Slot σ) : Slot σ :=
  match s.tenancy with
  | .home stage => { s with tenancy := .atWork { stage }, made := 0, state := .idle }
  | _ => s

/-- The worker is over: the stage comes back, unless it broke off. -/
def finish (s : Slot σ) : Slot σ :=
  match s.tenancy with
  | .atWork w =>
    { s with tenancy := if w.phase matches .gone .panicked then .lost else .home w.stage
             state := .stopped }
  | _ => s

end Slot

/-- A worker has left. -/
structure Exit where
  stageIndex : Nat
  name : String
  reason : ExitReason
deriving DecidableEq

structure Runtime (σ : Type) where
  slots : List (Slot σ) := []
  queues : List (Queue.Bounded Frame) := []
  stopRequested : Bool := false
  running : Bool := false
  /-- The workers that have left, in order, over all runs. -/
  exits : List Exit := []

namespace Runtime

variable {σ : Type}

def add (b : Behavior σ) (r : Runtime σ) (stage : σ) (options : Queue.Options) :
    Except PipelineError (Nat × Runtime σ) :=
  if r.running then .error .alreadyRunning
  else .ok (r.slots.length, { r with slots := r.slots ++ [.new b stage options] })

def start (r : Runtime σ) : Except PipelineError (Runtime σ) :=
  if r.running then .error .alreadyRunning
  else if r.slots.isEmpty then .error .emptyPipeline
  else
    match r.slots.find? Slot.isLost with
    | some s => .error (.stageLost s.name)
    | none =>
      .ok { r with
        slots := r.slots.map Slot.launch
        queues := r.slots.map fun s => Queue.Bounded.new s.options.capacity s.options.policy
        stopRequested := false
        running := true }

/-! ## Steps of the workers -/

/-- What worker `i` sees. -/
def surroundings? (r : Runtime σ) (i : Nat) : Option Surroundings := do
  let output ← r.queues[i]?
  some { index := i, stopRequested := r.stopRequested, output
         input := if i = 0 then none else r.queues[i - 1]? }

/-- The slot of a worker after a step. -/
def slotAfter (s : Slot σ) (m : Move σ) : Slot σ :=
  { s with
    tenancy := .atWork m.worker
    made := s.made + m.made
    state := match m.worker.phase with
      | .starting => .running
      | .gone _ => .stopped
      | _ => s.state
    stopCalls := if m.stops then s.stopCalls + 1 else s.stopCalls }

/-- The exit that a step brings about, if it is the last one of its worker. -/
def exitOf (i : Nat) (name : String) (m : Move σ) : List Exit :=
  match m.worker.phase with
  | .gone reason => [⟨i, name, reason⟩]
  | _ => []

/-- Put a step of worker `i` into effect. -/
def apply (r : Runtime σ) (i : Nat) (s : Slot σ) (m : Move σ) : Runtime σ :=
  let queues := r.queues.set i m.output
  { r with
    slots := r.slots.set i (slotAfter s m)
    queues := match m.input with
      | some q => queues.set (i - 1) q
      | none => queues
    exits := r.exits ++ exitOf i s.name m }

def step (b : Behavior σ) (r : Runtime σ) (i : Nat) : Option (Runtime σ) := do
  let s ← r.slots[i]?
  let w ← s.worker?
  let around ← r.surroundings? i
  let m ← w.step b around
  some (r.apply i s m)

/-- Whether worker `i` would only go round in its loop. -/
def isIdle (quiet : σ → Bool) (r : Runtime σ) (i : Nat) : Bool :=
  match r.slots[i]?.bind Slot.worker?, r.surroundings? i with
  | some w, some around => w.isIdle quiet around
  | _, _ => false

/-- A step of the last worker that can make one, idle workers apart. -/
def stepLast (b : Behavior σ) (quiet : σ → Bool) (r : Runtime σ) : Option (Runtime σ) :=
  (List.range r.slots.length).reverse.findSome? fun i =>
    if r.isIdle quiet i then none else r.step b i

/-- Let the workers run, the last that can first, for at most `fuel` steps. -/
def settle (b : Behavior σ) (quiet : σ → Bool) : Nat → Runtime σ → Runtime σ
  | 0, r => r
  | fuel + 1, r =>
    match r.stepLast b quiet with
    | some r => settle b quiet fuel r
    | none => r

/-! ## The caller -/

def poll (r : Runtime σ) : Option Frame × Runtime σ :=
  match r.queues.getLast? with
  | none => (none, r)
  | some q =>
    let (f, q) := q.dequeue
    (f, { r with queues := r.queues.set (r.queues.length - 1) q })

def pollLatest (r : Runtime σ) : Option Frame × Runtime σ :=
  match r.queues.getLast? with
  | none => (none, r)
  | some q =>
    let (f, q, _) := q.dequeueLatest
    (f, { r with queues := r.queues.set (r.queues.length - 1) q })

def requestStop (r : Runtime σ) : Runtime σ :=
  { r with
    stopRequested := true
    slots := r.slots.map fun s => if s.state = .running then { s with state := .stopping } else s }

def shutdownQueue (r : Runtime σ) (i : Nat) : Runtime σ :=
  { r with queues := r.queues.modify i Queue.Bounded.shutdown }

def collect (r : Runtime σ) : Runtime σ :=
  { r with slots := r.slots.map Slot.finish, running := false }

/-- Stop: request it, shut every queue down, let every worker leave, and take the stages back. A
pipeline that does not run stays as it is. -/
def stop (b : Behavior σ) (quiet : σ → Bool) (fuel : Nat) (r : Runtime σ) : Runtime σ :=
  if r.running then
    let r := (List.range r.queues.length).foldl shutdownQueue r.requestStop
    (settle b quiet fuel r).collect
  else r

/-! ## Observation -/

def names (r : Runtime σ) : List String := r.slots.map (·.name)

/-- Whether every worker has left. -/
def isFinished (r : Runtime σ) : Bool :=
  r.slots.all fun s => match s.worker? with
    | some w => w.phase.isGone
    | none => true

/-- What telemetry shows of one stage. -/
structure Telemetry where
  name : String
  made : Nat
  /-- Frames dropped by the queue before the stage. -/
  dropped : Nat
  state : WorkerState
  /-- Frames in the queue behind the stage. -/
  queued : Nat

def telemetry (r : Runtime σ) : List Telemetry :=
  r.slots.mapIdx fun i s =>
    { name := s.name
      made := s.made
      dropped := if i = 0 then 0 else (r.queues[i - 1]?.map (·.dropped)).getD 0
      state := s.state
      queued := (r.queues[i]?.map (·.length)).getD 0 }

end Runtime

end Pipeline
end Oscilloscope
