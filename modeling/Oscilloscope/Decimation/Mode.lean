/-!
# Oscilloscope.Decimation.Mode

The choice of a downsampling algorithm.

* `Mode` lists the algorithms in selector order, with their codes `0`, `1`, `2`.
* `Mode.effective` is the algorithm that runs at a given sample rate. The triangle method costs
  too much at high rates and gives way to the bucket extremes there; the others always run.
-/

namespace Oscilloscope
namespace Decimation

inductive Mode where
  /-- Every sample is kept. -/
  | passthrough
  /-- The smallest and the largest sample of each bucket. -/
  | minMax
  /-- One sample per bucket: the corner of the largest triangle. -/
  | triangle
deriving DecidableEq, Repr, Inhabited

namespace Mode

/-- Selector order. -/
def all : List Mode := [passthrough, minMax, triangle]

def code : Mode → UInt8
  | passthrough => 0
  | minMax => 1
  | triangle => 2

/-- The mode with a given code; a code that belongs to none stands for the default, `minMax`. -/
def ofCode (c : UInt8) : Mode :=
  if c = 0 then passthrough else if c = 2 then triangle else minMax

@[simp] theorem ofCode_code (m : Mode) : ofCode m.code = m := by
  cases m <;> decide

/-- The name of a mode in a settings document. -/
def name : Mode → String
  | passthrough => "None"
  | minMax => "MinMax"
  | triangle => "Lttb"

def ofName? (s : String) : Option Mode := all.find? (·.name == s)

/-- The name of a mode on a display. -/
def label : Mode → String
  | passthrough => "None"
  | minMax => "MinMax"
  | triangle => "LTTB"

/-- From this sample rate on (100 MSa/s) the triangle method is not run. -/
def highRate : Float := 100000000.0

def effective (m : Mode) (rate : Float) : Mode :=
  if m = triangle ∧ highRate ≤ rate then minMax else m

end Mode

end Decimation
end Oscilloscope
