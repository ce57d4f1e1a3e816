import Oscilloscope.Double

/-!
# Oscilloscope.Text.Document

What a text in one of the settings formats says, apart from how it is written.

A `Document` is a value with all values inside it. It may hold parts that are well written and yet
mean nothing: they are `spoiled`, and harm only who asks for them.
-/

namespace Oscilloscope
namespace Text

/-- Whether a number fits a word of 64 bits with a sign. -/
def isWord (n : Int) : Bool :=
  decide (Int64.minValue.toInt ≤ n) && decide (n ≤ Int64.maxValue.toInt)

inductive Document where
  | null
  | flag (value : Bool)
  | integer (value : Int)
  | real (value : Double)
  | text (value : String)
  /-- A date, a time, or both. No setting is one, so it is not kept. -/
  | date
  | list (items : List Document)
  /-- Named values. A table is `closed` if it is written in one piece. -/
  | table (closed : Bool) (entries : List (String × Document))
  /-- Well written, without a meaning. -/
  | spoiled

end Text
end Oscilloscope
