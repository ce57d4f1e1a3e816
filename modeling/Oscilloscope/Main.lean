import Oscilloscope.Demo

/-!
# Oscilloscope.Main

The command line: an optional path of a settings file. The demonstration runs with it, logs to the
standard output, and reports failures on the error output with exit code 1.
-/

namespace Oscilloscope

/-- A disk that holds the file at `path`, if it can be read. -/
def diskWith (path : String) : IO Disk := do
  try
    let text ← IO.FS.readFile path
    let disk : Disk := {}
    return (disk.makeParents path >>= (·.write path text)).getD {}
  catch _ => return {}

end Oscilloscope

open Oscilloscope in
def main (args : List String) : IO UInt32 := do
  let disk ← match args with
    | path :: _ => diskWith path
    | [] => pure {}
  let outcome := Demo.start disk args.head?
  let stderr ← IO.getStderr
  outcome.report.forM stderr.putStrLn
  (outcome.summary.toList.flatMap (·.lines)).forM IO.println
  return UInt32.ofNat outcome.exitCode
