import Oscilloscope.Pipeline.Runtime
import Oscilloscope.Wire.Header

/-!
# Oscilloscope.Failure

Why an operation of the library as a whole fails, with the chain of causes behind it.

`Failure.message` says all of it in one line, `Failure.causes` lists the texts of the causes,
nearest first.
-/

namespace Oscilloscope

inductive Failure where
  | settings (reason : String)
  | pipeline (error : Pipeline.PipelineError)
  | wire (error : Wire.WireError)
  /-- Reading or writing failed. -/
  | io (reason : String)
  /-- A text has no meaning, or a value no text. -/
  | serialization (reason : String)
  /-- What was being done when something else failed. -/
  | within (context : String) (cause : Failure)
deriving DecidableEq

def Pipeline.PipelineError.causes : PipelineError → List String
  | workerSpawn reason => [reason]
  | _ => []

def Wire.WireError.causes : WireError → List String
  | transport reason => [reason]
  | _ => []

namespace Failure

def message : Failure → String
  | settings reason => "Configuration error: " ++ reason
  | pipeline e => "Pipeline error: " ++ e.message
  | wire e => "Wire error: " ++ e.message
  | io reason => "IO error: " ++ reason
  | serialization reason => "Serialization error: " ++ reason
  | within context cause => context ++ ": " ++ cause.message

def causes : Failure → List String
  | settings _ => []
  | pipeline e => e.message :: e.causes
  | wire e => e.message :: e.causes
  | io reason => [reason]
  | serialization _ => []
  | within _ cause => cause.message :: cause.causes

end Failure

end Oscilloscope
