import Oscilloscope.Decimation
import Oscilloscope.Double
import Oscilloscope.Queue.Policy
import Oscilloscope.Stage.Display

/-!
# Oscilloscope.Settings

The settings of a pipeline, section by section, with their defaults.
-/

namespace Oscilloscope

/-- What a worker does when it has nothing to process. -/
inductive Idle where
  /-- Let others run. -/
  | yield
  | sleep (micros : UInt64)
deriving DecidableEq, Repr

namespace Settings

/-- Workers and logging. -/
structure Workers where
  logFilter : String := "info,scope_pipeline=debug"
  idle : Idle := .yield
deriving DecidableEq

/-- The acquisition side. -/
structure Ingest where
  channelCount : UInt32 := 2
  /-- Samples per second and channel. -/
  sampleRate : Double := .ofFloat 1000000.0
  /-- The capacity of the ring of each channel in samples. -/
  ringCapacity : Nat := 1048576
  /-- Samples per channel in a block read from the rings. -/
  blockSamples : Nat := 8192
  queue : Queue.Options := {}
deriving DecidableEq

structure Decimation where
  mode : Oscilloscope.Decimation.Mode := .minMax
  targetPoints : Nat := Oscilloscope.Decimation.defaultTarget
  queue : Queue.Options := {}
deriving DecidableEq

structure Visualization where
  /-- The most samples per channel in a shown frame. -/
  displayPoints : Nat := Display.defaultPoints
  /-- The visible span in seconds. -/
  visibleSpan : Double := .ofFloat Display.defaultSpan
  /-- Where the first window that is shown is dumped. -/
  dumpDirectory : Option String := none
  /-- The display reads only the newest frame, so its queue is short. -/
  queue : Queue.Options := { capacity := 4 }
deriving DecidableEq

/-- The tone that the demo feeds. -/
structure Demo where
  /-- How long the demo runs, in seconds. -/
  duration : Double := .ofFloat 2.0
  /-- The length of one period in samples. -/
  periodSamples : Nat := 1000
  amplitude : Sample := 16000
deriving DecidableEq

end Settings

structure Settings where
  workers : Settings.Workers := {}
  ingest : Settings.Ingest := {}
  decimation : Settings.Decimation := {}
  visualization : Settings.Visualization := {}
  demo : Settings.Demo := {}
deriving DecidableEq

namespace Settings

/-- The most channels that a pipeline takes. -/
def maxChannels : UInt32 := 8

/-- Whether two settings are equal with their doubles compared as numbers. -/
def agrees (a b : Settings) : Bool :=
  a.ingest.sampleRate.agrees b.ingest.sampleRate &&
  a.visualization.visibleSpan.agrees b.visualization.visibleSpan &&
  a.demo.duration.agrees b.demo.duration &&
  decide (a = { b with
    ingest.sampleRate := a.ingest.sampleRate
    visualization.visibleSpan := a.visualization.visibleSpan
    demo.duration := a.demo.duration })

end Settings

end Oscilloscope
