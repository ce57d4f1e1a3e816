import Oscilloscope.Pipeline.Runtime
import Oscilloscope.Settings
import Oscilloscope.Stage.Any

/-!
# Oscilloscope.Pipeline.Assembly

The standard pipeline: a source, decimation, taps, and the display.

Taps look at the frames between decimation and display, in the order given, and hand them on. The
queue behind the display is the one that a caller polls.
-/

namespace Oscilloscope
namespace Pipeline

/-- The display that settings ask for. If they name a directory, the first window is dumped. -/
def displayFor (s : Settings.Visualization) : Display :=
  let d := Display.new s.displayPoints s.visibleSpan.toFloat
  match s.dumpDirectory with
  | some directory => d.requestDump directory
  | none => d

/-- The stages of the standard pipeline, each with the choices for the queue behind it. -/
def standardStages (s : Settings) (source : Source) (taps : List (Stage × Queue.Options)) :
    List (Stage × Queue.Options) :=
  (.intake { source }, s.ingest.queue) ::
  (.decimator (.new s.decimation.mode s.decimation.targetPoints), s.decimation.queue) ::
  taps ++ [(.display (displayFor s.visualization), s.visualization.queue)]

/-- The standard pipeline, not yet running. -/
def standard (s : Settings) (source : Source) (taps : List (Stage × Queue.Options)) :
    Runtime Stage :=
  { slots := (standardStages s source taps).map fun p => .new Stage.behavior p.1 p.2 }

end Pipeline
end Oscilloscope
