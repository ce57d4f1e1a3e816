import Oscilloscope.Stage.Decimate
import Oscilloscope.Stage.Display
import Oscilloscope.Stage.EnvelopeCheck
import Oscilloscope.Stage.Intake
import Oscilloscope.Stage.Scripted
import Oscilloscope.Stage.WireSink

/-!
# Oscilloscope.Stage.Any

The stages of a pipeline under one type, and their behaviour towards a worker.
-/

namespace Oscilloscope

inductive Stage where
  | intake (stage : Intake)
  | decimator (stage : Decimator)
  | display (stage : Display)
  | check (stage : EnvelopeCheck)
  | sink (stage : WireSink)
  | scripted (stage : Scripted)

/-- A call of one kind of stage as a call of any. -/
def Processed.map {σ τ : Type} (f : σ → τ) (p : Processed σ) : Processed τ :=
  ⟨f p.stage, p.result, p.left, p.made⟩

def Attempt.map {α β : Type} (f : α → β) : Attempt α → Attempt β
  | returned a => returned (f a)
  | waiting => waiting
  | panicked => panicked

namespace Stage

def name : Stage → String
  | intake _ => Intake.name
  | decimator _ => Decimator.name
  | display _ => Display.name
  | check _ => EnvelopeCheck.name
  | sink _ => WireSink.name
  | scripted s => s.name

def start : Stage → Attempt (StageResult × Stage)
  | intake s => .returned (s.start.1, intake s.start.2)
  | scripted s => s.start.map fun p => (p.1, scripted p.2)
  | s => .returned (.ok, s)

def process (s : Stage) (call : Call) (batch : List Frame) : Attempt (Processed Stage) :=
  match s with
  | intake s => (s.process batch).map (Processed.map intake)
  | decimator s => .returned ((s.process batch).map decimator)
  | display s => .returned ((s.process batch).map display)
  | check s => (s.process batch).map (Processed.map check)
  | sink s => (s.process batch).map (Processed.map sink)
  | scripted s => (s.process call batch).map (Processed.map scripted)

def stop : Stage → Attempt Stage
  | intake s => .returned (intake s.stop)
  | sink s => .returned (sink s.stop)
  | scripted s => s.stop.map scripted
  | s => .returned s

/-- The behaviour of every stage of this library. -/
def behavior : Behavior Stage where
  name
  start
  process
  stop

/-- Whether a call without a frame has nothing to do, now and later. -/
def isQuiet : Stage → Bool
  | intake s => s.source.isQuiet
  | scripted s => s.isQuiet
  | _ => true

end Stage

end Oscilloscope
