import Oscilloscope.Settings.Format

/-!
# Oscilloscope.Settings.Schema

Settings as documents: which keys they have, and what may stand under each.

* A section is a table of its keys, or a list of their values in order. Keys that it does not have
  are passed over, and a key that is absent has its default.
* `Settings.ofDocument?` reads all sections, `Settings.toDocument` writes them.
* `Settings.parse` and `Settings.render` do the same for a text in one of the formats.

The formats differ in two points: a list in JSON must not be longer than the section, and a choice
written as a table holds `null` in JSON and something empty in TOML.
-/

namespace Oscilloscope
namespace Settings

open Text (Document)

/-! ## Values -/

def text? : Document → Option String
  | .text s => some s
  | _ => none

/-- A natural number below `limit`. -/
def below? (limit : Nat) : Document → Option Nat
  | .integer n => if 0 ≤ n ∧ n < limit then some n.toNat else none
  | _ => none

/-- An index word, as sizes and counts are. -/
def count? (d : Document) : Option Nat := below? indexLimit d

def real? : Document → Option Double
  | .real d => some d
  | .integer n => some (.ofFloat (Float.ofInt n))
  | _ => none

def sample? : Document → Option Sample
  | .integer n => Sample.ofInt? n
  | _ => none

/-- A path, or `null` for none. -/
def path? : Document → Option (Option String)
  | .null => some none
  | .text s => some (some s)
  | _ => none

/-- What stands under a choice that is written as a table. -/
def isBlank : Format → Document → Bool
  | .json, .null => true
  | .toml, .list [] => true
  | .toml, .table _ [] => true
  | _, _ => false

/-- One of several names, alone or as the key of a table. A table that is written in one piece must
have no other key. -/
def choice? {α : Type} (format : Format) (ofName? : String → Option α) : Document → Option α
  | .text s => ofName? s
  | .table closed ((name, d) :: rest) =>
    if (closed ∧ !rest.isEmpty) ∨ !isBlank format d then none else ofName? name
  | _ => none

/-! ## Sections -/

/-- What a section says about its keys. None may occur twice. -/
def fields? (format : Format) (keys : List String) : Document → Option (List (String × Document))
  | .table _ entries =>
    let known := entries.filter fun e => e.1 ∈ keys
    if (known.map (·.1)).Nodup then some known else none
  | .list items =>
    if format = .json ∧ keys.length < items.length then none else some (keys.zip items)
  | .date => some []
  | _ => none

/-- The value under a key, or its default if the key is absent. -/
def field {α : Type} (fields : List (String × Document)) (key : String)
    (read : Document → Option α) (absent : α) : Option α :=
  match fields.lookup key with
  | none => some absent
  | some d => read d

def mode? (format : Format) : Document → Option Oscilloscope.Decimation.Mode :=
  choice? format Oscilloscope.Decimation.Mode.ofName?

def queueKeys : List String := ["capacity", "policy"]

def queue? (format : Format) (d : Document) : Option Queue.Options := do
  let f ← fields? format queueKeys d
  let defaults : Queue.Options := {}
  let capacity ← field f "capacity" count? defaults.capacity
  let policy ← field f "policy" (choice? format Queue.Policy.ofName?) defaults.policy
  some { capacity, policy }

def idleKeys : List String := ["kind", "micros"]

/-- The two kinds of idling, without the time to sleep. -/
def idleKind? : String → Option Bool
  | "Yield" => some false
  | "Sleep" => some true
  | _ => none

/-- A list must hold both values. -/
def hasBoth : Document → Bool
  | .list items => decide (2 ≤ items.length)
  | _ => true

def idle? (format : Format) (d : Document) : Option Idle := do
  if !hasBoth d then none
  let f ← fields? format idleKeys d
  let kind ← f.lookup "kind"
  let sleeps ← choice? format idleKind? kind
  match sleeps, f.lookup "micros" with
  | false, none => some .yield
  | false, some .null => some .yield
  | true, some d => (count? d).map fun n => .sleep (UInt64.ofNat n)
  | _, _ => none

def workersKeys : List String := ["log_filter", "idle"]

def workers? (format : Format) (d : Document) : Option Workers := do
  let f ← fields? format workersKeys d
  let defaults : Workers := {}
  let logFilter ← field f "log_filter" text? defaults.logFilter
  let idle ← field f "idle" (idle? format) defaults.idle
  some { logFilter, idle }

def ingestKeys : List String :=
  ["channel_count", "sample_rate_hz", "ring_capacity", "block_samples", "queue"]

def ingest? (format : Format) (d : Document) : Option Ingest := do
  let f ← fields? format ingestKeys d
  let defaults : Ingest := {}
  let channelCount ←
    field f "channel_count" (fun d => (below? UInt32.size d).map UInt32.ofNat) defaults.channelCount
  let sampleRate ← field f "sample_rate_hz" real? defaults.sampleRate
  let ringCapacity ← field f "ring_capacity" count? defaults.ringCapacity
  let blockSamples ← field f "block_samples" count? defaults.blockSamples
  let queue ← field f "queue" (queue? format) defaults.queue
  some { channelCount, sampleRate, ringCapacity, blockSamples, queue }

def decimationKeys : List String := ["mode", "target_points", "queue"]

def decimation? (format : Format) (d : Document) : Option Decimation := do
  let f ← fields? format decimationKeys d
  let defaults : Decimation := {}
  let mode ← field f "mode" (mode? format) defaults.mode
  let targetPoints ← field f "target_points" count? defaults.targetPoints
  let queue ← field f "queue" (queue? format) defaults.queue
  some { mode, targetPoints, queue }

def visualizationKeys : List String :=
  ["display_points", "visible_time_span_s", "debug_dump_dir", "queue"]

def visualization? (format : Format) (d : Document) : Option Visualization := do
  let f ← fields? format visualizationKeys d
  let defaults : Visualization := {}
  let displayPoints ← field f "display_points" count? defaults.displayPoints
  let visibleSpan ← field f "visible_time_span_s" real? defaults.visibleSpan
  let dumpDirectory ← field f "debug_dump_dir" path? defaults.dumpDirectory
  let queue ← field f "queue" (queue? format) defaults.queue
  some { displayPoints, visibleSpan, dumpDirectory, queue }

def demoKeys : List String := ["duration_s", "period_samples", "amplitude"]

def demo? (format : Format) (d : Document) : Option Demo := do
  let f ← fields? format demoKeys d
  let defaults : Demo := {}
  let duration ← field f "duration_s" real? defaults.duration
  let periodSamples ← field f "period_samples" count? defaults.periodSamples
  let amplitude ← field f "amplitude" sample? defaults.amplitude
  some { duration, periodSamples, amplitude }

def sectionKeys : List String := ["runtime", "ingest", "decimation", "visualization", "demo"]

def ofDocument? (format : Format) (d : Document) : Option Settings := do
  let f ← fields? format sectionKeys d
  let workers ← field f "runtime" (workers? format) {}
  let ingest ← field f "ingest" (ingest? format) {}
  let decimation ← field f "decimation" (decimation? format) {}
  let visualization ← field f "visualization" (visualization? format) {}
  let demo ← field f "demo" (demo? format) {}
  some { workers, ingest, decimation, visualization, demo }

/-! ## Writing -/

/-- A number as a value. -/
def number (n : Nat) : Document := .integer n

def queueDocument (q : Queue.Options) : Document :=
  .table false [("capacity", number q.capacity), ("policy", .text q.policy.name)]

def idleDocument : Idle → Document
  | .yield => .table false [("kind", .text "Yield")]
  | .sleep micros => .table false [("kind", .text "Sleep"), ("micros", number micros.toNat)]

def toDocument (s : Settings) : Document :=
  .table false
    [("runtime", .table false
      [("log_filter", .text s.workers.logFilter), ("idle", idleDocument s.workers.idle)]),
     ("ingest", .table false
      [("channel_count", number s.ingest.channelCount.toNat),
       ("sample_rate_hz", .real s.ingest.sampleRate),
       ("ring_capacity", number s.ingest.ringCapacity),
       ("block_samples", number s.ingest.blockSamples),
       ("queue", queueDocument s.ingest.queue)]),
     ("decimation", .table false
      [("mode", .text s.decimation.mode.name),
       ("target_points", number s.decimation.targetPoints),
       ("queue", queueDocument s.decimation.queue)]),
     ("visualization", .table false
      [("display_points", number s.visualization.displayPoints),
       ("visible_time_span_s", .real s.visualization.visibleSpan),
       ("debug_dump_dir", match s.visualization.dumpDirectory with
         | some path => .text path
         | none => .null),
       ("queue", queueDocument s.visualization.queue)]),
     ("demo", .table false
      [("duration_s", .real s.demo.duration),
       ("period_samples", number s.demo.periodSamples),
       ("amplitude", .integer s.demo.amplitude.toInt)])]

/-! ## Texts -/

def parse (format : Format) (text : String) : Option Settings :=
  (format.read text).bind (ofDocument? format)

def render (format : Format) (s : Settings) : Option String := format.write s.toDocument

end Settings
end Oscilloscope
