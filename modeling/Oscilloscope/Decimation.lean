import Oscilloscope.Decimation.Mode
import Oscilloscope.Decimation.Triangle

/-!
# Oscilloscope.Decimation

Downsampling of one channel.

* `decimate samples mode target` reduces `samples`; the result depends on nothing else.
* `decimateOnto` appends the reduction to samples that are there already.
* `outputLength?` is the length of the reduction, from the length of the input alone. There is none
  if it is no index.
-/

namespace Oscilloscope
namespace Decimation

/-- The default number of buckets: 3840 samples per channel. -/
def defaultTarget : Nat := 1920

def decimateOnto (existing samples : List Sample) (mode : Mode) (target : Nat) : List Sample :=
  match mode with
  | .passthrough => existing ++ samples
  | .minMax => existing ++ minMax samples target
  | .triangle => existing ++ triangle samples target

def decimate (samples : List Sample) (mode : Mode) (target : Nat) : List Sample :=
  decimateOnto [] samples mode target

def outputLength? (n : Nat) (mode : Mode) (target : Nat) : Option Nat :=
  match mode with
  | .passthrough => some n
  | .minMax => if target = 0 then some 0 else if n < target then some n else index? (2 * target)
  | .triangle => if n ≤ target then some n else some target

end Decimation
end Oscilloscope
