import Oscilloscope.Frame

/-!
# Oscilloscope.Stage

What a stage of the pipeline is to its worker.

A worker offers the frames of one batch and gets back the frames that the stage left, the frames
that it made, and a `StageResult`. One contract covers sources, which are offered nothing, stages
between two queues, and sinks, which make nothing.

* `StageResult` says how a call went on.
* `Call` is what a stage may know about the call.
* `Processed` is what a call leaves behind.
* `Behavior` is a kind of stage: what it does when it starts, at each call, and when it stops.
  `Attempt` adds the ways in which stage code may fail to answer.
-/

namespace Oscilloscope

inductive StageResult where
  /-- Go on. -/
  | ok
  /-- Nothing to do right now. -/
  | noData
  /-- The stage has come to its end. -/
  | endOfStream
  /-- Offer the same batch once more. -/
  | retry
  | error
deriving DecidableEq, Repr

namespace StageResult

def all : List StageResult := [ok, noData, endOfStream, retry, error]

def name : StageResult → String
  | ok => "Ok"
  | noData => "NoData"
  | endOfStream => "EndOfStream"
  | retry => "Retry"
  | error => "Error"

def ofName? (s : String) : Option StageResult := all.find? (·.name == s)

def label : StageResult → String
  | ok => "ok"
  | noData => "no data"
  | endOfStream => "end of stream"
  | retry => "retry"
  | error => "error"

end StageResult

structure Call where
  /-- The number of the call in this run. -/
  iteration : Nat
  /-- The place of the stage in the pipeline. -/
  stageIndex : Nat
  stopRequested : Bool

structure Processed (σ : Type) where
  stage : σ
  result : StageResult
  /-- The frames of the batch that were not taken. -/
  left : List Frame
  /-- The frames made, in order. Each owns its samples. -/
  made : List Frame

inductive Attempt (α : Type) where
  | returned (value : α)
  /-- It does not return before a stop is requested. -/
  | waiting
  /-- It broke off; the stage is lost. -/
  | panicked

structure Behavior (σ : Type) where
  name : σ → String
  start : σ → Attempt (StageResult × σ)
  process : σ → Call → List Frame → Attempt (Processed σ)
  stop : σ → Attempt σ

end Oscilloscope
