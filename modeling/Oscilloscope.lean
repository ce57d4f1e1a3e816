import Oscilloscope.Frame.Custody
import Oscilloscope.Frame.Description
import Oscilloscope.Queue.Producers
import Oscilloscope.Ring.Ingestion
import Oscilloscope.Stage.Any
import Oscilloscope.Pipeline.Assembly
import Oscilloscope.Settings.File
import Oscilloscope.Demo
import Oscilloscope.Demo.LogFilter
import Oscilloscope.Main
import Oscilloscope.Proofs.Queue.History
import Oscilloscope.Proofs.Pipeline.Line
import Oscilloscope.Proofs.Pipeline.Conservation
import Oscilloscope.Proofs.Pipeline.Stopping
import Oscilloscope.Proofs.Wire.Headers
import Oscilloscope.Proofs.Wire.Codec
import Oscilloscope.Proofs.Wire.Frames
import Oscilloscope.Proofs.Wire.Drain
import Oscilloscope.Proofs.Wire.Delivery
import Oscilloscope.Proofs.Wire.Resync
import Oscilloscope.Proofs.Wire.Writing
import Oscilloscope.Proofs.Wire.Transmission
import Oscilloscope.Proofs.Decimation.Buckets
import Oscilloscope.Proofs.Double.Sign
import Oscilloscope.Proofs.Envelope.Sliding
import Oscilloscope.Proofs.Envelope.WindowSet
import Oscilloscope.Proofs.Envelope.SelfCheck
import Oscilloscope.Proofs.Ring.Contents
import Oscilloscope.Proofs.Ring.Lanes
import Oscilloscope.Proofs.Ring.Delivery
import Oscilloscope.Proofs.Ring.Alignment
import Oscilloscope.Proofs.Least
import Oscilloscope.Proofs.Ring.Handover
import Oscilloscope.Proofs.Ring.EndOfStream
import Oscilloscope.Proofs.Decimation.Enclosing
import Oscilloscope.Proofs.Decimation.Frames
import Oscilloscope.Proofs.Display.History
import Oscilloscope.Proofs.Display.Window
import Oscilloscope.Proofs.Display.Overlong
import Oscilloscope.Proofs.Display.Spikes
import Oscilloscope.Proofs.Frame.Ledger
import Oscilloscope.Proofs.Frame.Chronicle
import Oscilloscope.Proofs.Intake.Blocks
import Oscilloscope.Proofs.Intake.Positions
import Oscilloscope.Proofs.Intake.Discontinuities
import Oscilloscope.Proofs.Ring.Throttling
import Oscilloscope.Proofs.Settings.Defaults
import Oscilloscope.Proofs.Intake.Counters
import Oscilloscope.Proofs.Envelope.TestSignal
import Oscilloscope.Proofs.Queue.Wakeups
import Oscilloscope.Proofs.Pipeline.Lifecycle
import Oscilloscope.Proofs.Envelope.Keys
import Oscilloscope.Proofs.Wire.Acceptance
import Oscilloscope.Proofs.Envelope.Tolerance
import Oscilloscope.Proofs.Envelope.Verdicts
import Oscilloscope.Proofs.Ring.Fifo
import Oscilloscope.Proofs.Decimation.Tiling
import Oscilloscope.Proofs.Decimation.Levels
import Oscilloscope.Proofs.Pipeline.Retries
import Oscilloscope.Proofs.Display.Bounds
import Oscilloscope.Proofs.Wire.Searches
import Oscilloscope.Proofs.Wire.Flushing
import Oscilloscope.Proofs.Decimation.Laws
import Oscilloscope.Proofs.Disk
import Oscilloscope.Proofs.Display.Budget
import Oscilloscope.Proofs.Display.Dumps
import Oscilloscope.Proofs.Decimation.LoneSpike
