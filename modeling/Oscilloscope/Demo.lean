import Oscilloscope.Demo.LogFilter
import Oscilloscope.Pipeline.Assembly
import Oscilloscope.Settings.File

/-!
# Oscilloscope.Demo

A demonstration: a tone goes through the rings and the standard pipeline, with a check of its
envelope behind decimation, and a summary is logged.

* `tonePeriod` is one period of the tone, `toneBlock` a block of it with one shifted copy per
  channel.
* `run` is the demonstration for some settings. The tone is paced: a block is due when its last
  sample would have been captured. How many blocks go through in a run depends on the machine; the
  first blocks that are due stand for all of them, since every block is checked alike.
* `start` reads the settings first, and says why if it cannot run with them.
-/

namespace Oscilloscope
namespace Demo

/-- A full turn. -/
def turn : Float := 6.283185307179586

def tonePeriod (length : Nat) (amplitude : Sample) : List Sample :=
  let n := max length 2
  (List.range n).map fun i =>
    let phase := Float.ofNat i / Float.ofNat n * turn
    (phase.sin * Float.ofInt amplitude.toInt).round.toInt16

/-- Block number `index` of a tone. The channels are shifted against each other by equal parts of
the period. -/
def toneBlock (period : List Sample) (channels : UInt32) (length index : Nat) : Buffer :=
  let wave := period.toArray
  let count := channels.toNat
  { sequence := UInt64.ofNat index
    channels
    samplesPerChannel := UInt32.ofNat length
    samples := (List.range count).flatMap fun channel =>
      let phase := channel * wave.size / count
      (List.range length).map fun i =>
        wave.getD ((index * length + i + phase) % wave.size) 0 }

/-- The most blocks that are fed. -/
def blockLimit : Nat := 4

/-- The pause between two looks at the display, in seconds. -/
def pollPause : Float := 0.016

/-- How long a run lasts, in seconds. It ends with a look at the display, so a positive duration is
filled up to a whole number of pauses. -/
def runTime (duration : Float) : Float :=
  if 0.0 < duration then (duration / pollPause).ceil * pollPause else 0.0

/-- The number of blocks that are due within a run, up to the limit. -/
def dueBlocks (s : Settings) : Nat :=
  let blocks := runTime s.demo.duration.toFloat * s.ingest.sampleRate.toFloat /
    Float.ofNat s.ingest.blockSamples
  min blocks.toUInt64.toNat blockLimit

/-- What is logged at the end. -/
structure Summary where
  exits : List Pipeline.Exit
  telemetry : List Pipeline.Runtime.Telemetry
  intake : IntakeStats
  ringDrops : UInt64
  checks : CheckTotals

namespace Summary

/-- The share of matched pairs, with four places. -/
def matchRate (s : Summary) : String := Text.fixed 4 s.checks.rate

def exitLine (e : Pipeline.Exit) : String :=
  s!"Stage {e.stageIndex} ({e.name}) exited: {e.reason.label}"

def telemetryLine (t : Pipeline.Runtime.Telemetry) : String :=
  s!"Telemetry: {t.name}: {t.made} frames, {t.dropped} dropped, {t.queued} queued, {t.state.label}"

def lines (s : Summary) : List String :=
  s.exits.map exitLine ++ s.telemetry.map telemetryLine ++
  ["Source: " ++ toString s.intake.frames.toNat ++ " frames, " ++ toString s.intake.gaps.toNat ++
     " sequence gaps, " ++ toString s.ringDrops.toNat ++ " ring drops",
   "Envelope check: " ++ toString s.checks.checked.toNat ++ " frames checked, " ++
     toString s.checks.skipped.toNat ++ " skipped, match rate " ++ s.matchRate]

end Summary

/-! ## A run -/

/-- More steps than a run takes. -/
def stepLimit : Nat := 100000

def settle (r : Pipeline.Runtime Stage) : Pipeline.Runtime Stage :=
  r.settle Stage.behavior Stage.isQuiet stepLimit

/-- Feed a block into the link that a stage reads from, if it reads from one. -/
def feedStage (b : Buffer) : Stage → Stage
  | .intake ⟨.ring link, numbering⟩ => .intake ⟨.ring (link.feed b).2, numbering⟩
  | stage => stage

/-- Feed a block into the link at the head of a running pipeline. -/
def feedHead (b : Buffer) (r : Pipeline.Runtime Stage) : Pipeline.Runtime Stage :=
  { r with slots := r.slots.modify 0 fun slot =>
      match slot.tenancy with
      | .atWork w => { slot with tenancy := .atWork { w with stage := feedStage b w.stage } }
      | _ => slot }

/-- The pipeline of the demonstration, before it runs. -/
def pipeline (s : Settings) (period : List Sample) : Pipeline.Runtime Stage :=
  let link := Link.new s.ingest.channelCount s.ingest.ringCapacity
    (UInt32.ofNat s.ingest.blockSamples) s.ingest.sampleRate
  let check := EnvelopeCheck.new .new period s.ingest.blockSamples s.decimation.targetPoints
  Pipeline.standard s (.ring link) [(.check check, s.decimation.queue)]

/-- What the stages of a pipeline have to say. -/
def summaryOf (r : Pipeline.Runtime Stage) : Summary :=
  let stages := r.slots.filterMap (·.stage?)
  let intakes := stages.filterMap fun
    | .intake s => some s
    | _ => none
  { exits := r.exits
    telemetry := r.telemetry
    intake := (intakes.head?.map (·.stats)).getD {}
    ringDrops := (intakes.findSome? fun s => match s.source with
      | .ring link => link.totalDropped?
      | _ => none).getD 0
    checks := (stages.findSome? fun
      | .check c => some c.totals
      | _ => none).getD {} }

def run (s : Settings) : Except Failure Summary := do
  let period := tonePeriod s.demo.periodSamples s.demo.amplitude
  let r ← (pipeline s period).start.mapError .pipeline
  let fed := (List.range (dueBlocks s)).foldl (fun r index =>
    settle (feedHead (toneBlock period s.ingest.channelCount s.ingest.blockSamples index) r))
    (settle r)
  .ok (summaryOf (fed.stop Stage.behavior Stage.isQuiet stepLimit))

/-! ## From a file -/

/-- What comes of starting the demonstration. -/
structure Outcome where
  /-- The lines of an error report; none if all went well. -/
  report : List String := []
  /-- The summary, if the log shows it. -/
  summary : Option Summary := none

/-- The exit code of the program. -/
def Outcome.exitCode (o : Outcome) : Nat := if o.report.isEmpty then 0 else 1

/-- Causes as lines of a report, numbered if there are several. -/
def causeLines : List String → List String
  | [cause] => ["    " ++ cause]
  | causes => causes.mapIdx fun i cause => "    " ++ toString i ++ ": " ++ cause

/-- A report on what failed, with all causes. -/
def report (problem : String) (causes : List String) : List String :=
  ("Error: " ++ problem) :: (if causes.isEmpty then [] else ["", "Caused by:"] ++ causeLines causes)

/-- The part of the program that the log lines come from. -/
def logTarget : String := "scope_pipeline"

def start (disk : Disk) (path : Option String) : Outcome :=
  let loaded := match path with
    | some path => Settings.load disk path
    | none => .ok {}
  match loaded with
  | .error e =>
    { report := report ("Failed to load config from " ++ path.getD "") (e.message :: e.causes) }
  | .ok s =>
    match s.check with
    | .error e => { report := report "Invalid configuration" (e.message :: e.causes) }
    | .ok () =>
      match run s with
      | .error e => { report := report e.message e.causes }
      | .ok summary =>
        { summary := if shows s.workers.logFilter logTarget .info then some summary else none }

end Demo
end Oscilloscope
