import Oscilloscope.Decimation.Buckets
import Oscilloscope.Disk
import Oscilloscope.Stage

/-!
# Oscilloscope.Stage.Display

The stage that shows the newest window of the signal.

It keeps a history of samples per channel. Every frame is appended, and then the newest samples of
the visible span are shown, reduced to the display budget if there are more. Reduction gives pairs,
so an odd budget is rounded down, and a budget below one pair is raised to it.

* A change of the sample rate clears the history: its samples have another density.
* The history is trimmed to twice the window, so that a window that shrinks and grows again still
  finds its samples.
* A requested dump is taken by the next window that is shown. It writes the window and the shown
  samples of channel 0 as two tables; where a frame begins inside the window is marked.

`Display.accumulate` appends, `Display.render` shows, `Display.process` is the stage.
-/

namespace Oscilloscope

/-- The two files of a dump. -/
structure Dump where
  windowed : String
  decimated : String
deriving DecidableEq

namespace Display

def defaultPoints : Nat := 3840

/-- The smallest budget: one pair. -/
def minPoints : Nat := 2

/-- The default visible span in seconds. -/
def defaultSpan : Float := 0.010

def windowedFile : String := "viz_debug_windowed_ch0.csv"

def decimatedFile : String := "viz_debug_decimated_ch0.csv"

end Display

/-- The display with its settings, what it last reported, and its history. -/
structure Display where
  /-- The visible span in seconds. -/
  span : Float
  /-- The budget: samples per channel in a shown frame. -/
  points : Nat
  /-- The part of the window that the history covers. -/
  coverage : Float := 0.0
  /-- The window length in samples. -/
  window : Nat := 0
  dumpRequest : Option String := none
  lastDump : Option Dump := none
  disk : Disk := {}
  /-- The samples of each channel, oldest first. -/
  history : List (List Sample) := []
  /-- The last known sample rate, `0` before one is known. -/
  rate : Double := .zero
  /-- How many samples channel 0 has been given since the history was cleared. -/
  appended : Nat := 0
  /-- Where the frames of channel 0 end, counted like `appended`. -/
  frameEnds : List Nat := []

namespace Display

def name : String := "Visualization"

def new (points : Nat) (span : Float) : Display := { span, points := max points minPoints }

def setSpan (d : Display) (span : Float) : Display := { d with span }

def setPoints (d : Display) (points : Nat) : Display := { d with points := max points minPoints }

/-- Dump the next window that is shown into `directory`. -/
def requestDump (d : Display) (directory : String) : Display :=
  { d with dumpRequest := some directory }

/-! ## History -/

def clearHistory (d : Display) : Display :=
  { d with history := d.history.map fun _ => [], frameEnds := [], appended := 0 }

/-- Take over the rate of a frame, if it has one. -/
def adoptRate (d : Display) (rate : Double) : Display :=
  if rate.isPositive then
    let d := if d.rate.isPositive ∧ !rate.agrees d.rate then d.clearHistory else d
    { d with rate }
  else d

/-- As many histories as channels: surplus ones go, missing ones start empty. -/
def resize (history : List (List Sample)) (channels : Nat) : List (List Sample) :=
  history.take channels ++ List.replicate (channels - history.length) []

/-- Append each channel of `f` to its history. -/
def appendChannels (f : Frame) (history : List (List Sample)) : List (List Sample) :=
  history.mapIdx fun channel h => h ++ (f.channel? channel).getD []

def accumulate (d : Display) (f : Frame) : Display :=
  if f.channels = 0 ∨ f.samplesPerChannel = 0 then d
  else
    let d := d.adoptRate f.rate
    let appended := d.appended + f.samplesPerChannel.toNat
    { d with history := appendChannels f (resize d.history f.channels.toNat)
             appended, frameEnds := d.frameEnds ++ [appended] }

/-! ## Window -/

/-- The whole part of a double, within an index word; `0` if it is negative or no number. -/
def sampleCount (v : Float) : Nat := v.toUInt64.toNat

/-- The window length for a span at a rate. -/
def windowLength (rate span : Float) : Nat :=
  if 0.0 < span then sampleCount (rate * span) else 0

/-- The newest `count` samples. -/
def newest (count : Nat) (h : List Sample) : List Sample := h.drop (h.length - count)

/-- Forget the samples beyond twice the window, and the frame ends that lie before them. -/
def trim (d : Display) : Display :=
  let limit := min (2 * d.window) (indexLimit - 1)
  let history := d.history.map (newest limit)
  let start := d.appended - (history.headD []).length
  { d with history, frameEnds := d.frameEnds.dropWhile (· ≤ start) }

/-- The number of samples that every channel has. -/
def shortest (history : List (List Sample)) : Nat :=
  match history.map List.length with
  | [] => 0
  | n :: rest => rest.foldl min n

/-- A window within the budget. -/
def reduce (budget : Nat) (window : List Sample) : List Sample :=
  if budget < window.length then Decimation.minMax window (budget / 2) else window

/-! ## Dump -/

/-- The offsets in the newest `count` samples of channel 0 at which a frame begins. -/
def boundaries (d : Display) (count : Nat) : List Nat :=
  let start := d.appended - count
  (d.frameEnds.filter fun e => start < e && e < d.appended).map (· - start)

/-- The window as a table: index, value, and whether a frame begins there. -/
def windowedTable (window : List Sample) (boundaries : List Nat) : String :=
  String.join ("index,value,frame_boundary\n" ::
    window.mapIdx fun i s =>
      toString i ++ "," ++ toString s.toInt ++ "," ++ (if i ∈ boundaries then "1" else "0") ++ "\n")

/-- The shown samples as a table. -/
def decimatedTable (shown : List Sample) : String :=
  String.join ("index,value\n" ::
    shown.mapIdx fun i s => toString i ++ "," ++ toString s.toInt ++ "\n")

/-- Write both tables into `directory`. What has been written before a failure stays. -/
def writeTables (disk : Disk) (directory windowed decimated : String) : Option Dump × Disk :=
  let dump : Dump := ⟨joinPath directory windowedFile, joinPath directory decimatedFile⟩
  match disk.makeDirectories directory with
  | none => (none, disk)
  | some disk =>
    match disk.write dump.windowed windowed with
    | none => (none, disk)
    | some disk =>
      match disk.write dump.decimated decimated with
      | none => (none, disk)
      | some disk => (some dump, disk)

/-- Dump channel 0. If the files cannot be written the last dump stays the one before. -/
def dump (d : Display) (directory : String) (window shown : List Sample) : Display :=
  let windowed := windowedTable window (d.boundaries window.length)
  let (files, disk) := writeTables d.disk directory windowed (decimatedTable shown)
  { d with lastDump := files.or d.lastDump, disk }

/-! ## Rendering -/

/-- The part of the window that `available` samples cover, at most all of it. -/
def coverageOf (available window : Nat) : Float :=
  let c := Float.ofNat available / Float.ofNat window
  if c < 1.0 then c else 1.0

/-- Show the newest `count` samples of every channel; the answer is the shown samples per
channel. -/
def showWindow (d : Display) (count : Nat) : List (List Sample) × Display :=
  let windows := d.history.map (newest count)
  let shown := windows.map (reduce (max d.points minPoints))
  let request := d.dumpRequest
  let d := { d with dumpRequest := none }
  match request with
  | none => (shown, d)
  | some directory => (shown, d.dump directory (windows.headD []) (shown.headD []))

/-- Show the window, if a rate is known, the window has a length, and every channel has samples. -/
def render (d : Display) : Option (List (List Sample)) × Display :=
  if !d.rate.isPositive ∨ d.history = [] then (none, { d with coverage := 0.0 })
  else
    let d := { d with window := windowLength d.rate.toFloat d.span }
    if d.window = 0 then (none, { d with coverage := 0.0 })
    else
      let d := d.trim
      let available := shortest d.history
      if available = 0 then (none, { d with coverage := 0.0 })
      else
        let d := { d with coverage := coverageOf available d.window }
        let p := d.showWindow (min available d.window)
        (some p.1, p.2)

/-- The frame that shows `channels`, with the metadata of the frame that completed the window. -/
def frameOf (d : Display) (f : Frame) (shown : List (List Sample)) : Option Frame :=
  let each := (shown.headD []).length
  if each = 0 then none
  else
    match Frame.ofSamples? (UInt32.ofNat shown.length) (UInt32.ofNat each) shown.flatten with
    | .error _ => none
    | .ok g =>
      some { g with sequence := f.sequence, timestamp := f.timestamp, flags := f.flags,
                    rate := d.rate, firstIndex := f.firstIndex }

def process (d : Display) (batch : List Frame) : Processed Display :=
  match batch with
  | [] => ⟨d, .noData, [], []⟩
  | f :: left =>
    let (shown, d) := (d.accumulate f).render
    match shown.bind (d.frameOf f) with
    | none => ⟨d, .noData, left, []⟩
    | some g => ⟨d, .ok, left, [g]⟩

end Display

end Oscilloscope
