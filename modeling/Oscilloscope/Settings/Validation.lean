import Oscilloscope.Settings
import Oscilloscope.Text.Decimal

/-!
# Oscilloscope.Settings.Validation

Settings that no pipeline can run with.

`Settings.faults` lists everything that is wrong, in the order of the sections; `Settings.validate`
reports the first.
-/

namespace Oscilloscope
namespace Settings

/-- Why a pipeline cannot run with some settings. -/
inductive Invalid where
  | channelCount (found : UInt32)
  | sampleRate (found : Double)
  /-- The ring or the block holds nothing. -/
  | emptyRing
  | blockTooLong (block ring : Nat)
  | emptyQueue (stage : String)
  | noTarget
  | displayPoints (found : Nat)
  | visibleSpan (found : Double)
deriving DecidableEq

def Invalid.message : Invalid → String
  | channelCount found =>
    "channel_count must be between 1 and " ++ toString maxChannels.toNat ++ ", got " ++
      toString found.toNat
  | sampleRate found =>
    "sample_rate_hz must be positive, got " ++ Text.plain.render found
  | emptyRing => "ring_capacity and block_samples must be non-zero"
  | blockTooLong block ring => s!"block_samples ({block}) exceeds ring_capacity ({ring})"
  | emptyQueue stage => stage ++ " queue capacity must be non-zero"
  | noTarget => "decimation target_points must be non-zero"
  | displayPoints found =>
    "display_points must be at least " ++ toString Display.minPoints ++ ", got " ++ toString found
  | visibleSpan found =>
    "visible_time_span_s must be positive, got " ++ Text.plain.render found

/-- `fault` unless `holds`. -/
def require (holds : Bool) (fault : Invalid) : List Invalid := if holds then [] else [fault]

def faults (s : Settings) : List Invalid :=
  require (0 < s.ingest.channelCount && s.ingest.channelCount ≤ maxChannels)
    (.channelCount s.ingest.channelCount) ++
  require (s.ingest.sampleRate.isPositive) (.sampleRate s.ingest.sampleRate) ++
  require (s.ingest.ringCapacity != 0 && s.ingest.blockSamples != 0) .emptyRing ++
  require (s.ingest.blockSamples ≤ s.ingest.ringCapacity)
    (.blockTooLong s.ingest.blockSamples s.ingest.ringCapacity) ++
  require (s.ingest.queue.capacity != 0) (.emptyQueue "ingest") ++
  require (s.decimation.queue.capacity != 0) (.emptyQueue "decimation") ++
  require (s.visualization.queue.capacity != 0) (.emptyQueue "visualization") ++
  require (s.decimation.targetPoints != 0) .noTarget ++
  require (Display.minPoints ≤ s.visualization.displayPoints)
    (.displayPoints s.visualization.displayPoints) ++
  require (s.visualization.visibleSpan.isPositive) (.visibleSpan s.visualization.visibleSpan)

def validate (s : Settings) : Except Invalid Unit :=
  match s.faults with
  | [] => .ok ()
  | fault :: _ => .error fault

end Settings
end Oscilloscope
