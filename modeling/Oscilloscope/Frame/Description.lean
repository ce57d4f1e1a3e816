import Oscilloscope.Frame
import Oscilloscope.Text.Decimal

/-!
# Oscilloscope.Frame.Description

A line that describes a frame: its metadata and whether it owns its samples, not the samples.
-/

namespace Oscilloscope

def Frame.description (f : Frame) : String :=
  "Frame \x7b sequence: " ++ toString f.sequence.toNat ++
  ", producer_ts_ns: " ++ toString f.timestamp.toNat ++
  ", channel_count: " ++ toString f.channels.toNat ++
  ", samples_per_channel: " ++ toString f.samplesPerChannel.toNat ++
  ", sample_rate_hz: " ++ Text.described.render f.rate ++
  ", first_sample_index: " ++ toString f.firstIndex.toNat ++
  ", flags: " ++ toString f.flags.toNat ++
  ", ownership: " ++ (if f.isBorrowed then "Borrowed" else "Owned") ++ " \x7d"

end Oscilloscope
