import Oscilloscope.Decimation
import Oscilloscope.Stage

/-!
# Oscilloscope.Stage.Decimate

The stage that reduces every channel of a frame on its own.

* `Decimator` holds the requested algorithm, the one that ran last, the target, and the rate that
  is assumed for frames without one.
* `Decimator.decimateFrame` reduces one frame. The rate of the result is scaled like its length, so
  that it covers the same time.
-/

namespace Oscilloscope

structure Decimator where
  mode : Decimation.Mode
  effective : Decimation.Mode
  target : Nat
  /-- The rate of the last frame that had one. -/
  rate : Double := .zero

namespace Decimator

def name : String := "Decimation"

def new (mode : Decimation.Mode) (target : Nat) : Decimator := { mode, effective := mode, target }

/-- The rate at which a frame is reduced. -/
def rateFor (d : Decimator) (f : Frame) : Double := if f.rate.isPositive then f.rate else d.rate

/-- The reduced channels, one after the other. -/
def reduceChannels (f : Frame) (mode : Decimation.Mode) (target : Nat) : List Sample :=
  (List.range f.channels.toNat).foldl (fun out channel =>
    match f.channel? channel with
    | some samples => Decimation.decimateOnto out samples mode target
    | none => out) []

/-- The rate of a reduction from `before` to `after` samples per channel. What is no number stays
as it is. -/
def scaledRate (rate : Double) (before after : Nat) : Double :=
  if before = 0 ∨ rate.isNaN then rate
  else .ofResult (rate.toFloat * Float.ofNat after / Float.ofNat before)

def decimateFrame (d : Decimator) (f : Frame) : Frame × Decimator :=
  let rate := d.rateFor f
  let mode := d.mode.effective rate.toFloat
  let samples := reduceChannels f mode d.target
  let each := if f.channels = 0 then 0 else samples.length / f.channels.toNat
  let reduced := match Frame.ofSamples? f.channels (UInt32.ofNat each) samples with
    | .ok g => g
    | .error _ => Frame.zeros f.channels 0
  ({ reduced with sequence := f.sequence, timestamp := f.timestamp, firstIndex := f.firstIndex,
                  flags := f.flags, rate := scaledRate rate f.samplesPerChannel.toNat each },
   { d with effective := mode, rate })

def process (d : Decimator) (batch : List Frame) : Processed Decimator :=
  match batch with
  | [] => ⟨d, .noData, [], []⟩
  | f :: left =>
    let (g, d) := d.decimateFrame f
    ⟨d, .ok, left, [g]⟩

end Decimator

end Oscilloscope
