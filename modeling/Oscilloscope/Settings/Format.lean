import Oscilloscope.Settings
import Oscilloscope.Text.Json.Printer
import Oscilloscope.Text.Json.Reader
import Oscilloscope.Text.Toml.Printer
import Oscilloscope.Text.Toml.Reader

/-!
# Oscilloscope.Settings.Format

The two text formats of settings. The name of a file decides between them: `.json` in any case means
JSON, everything else means TOML.
-/

namespace Oscilloscope
namespace Settings

inductive Format where
  | json
  | toml
deriving DecidableEq, Repr

/-- The last name in a path text, if it is a name and not a way up. -/
def fileName? (path : String) : Option String := do
  let name ← ((path.splitOn "/").filter fun name => name != "" && name != ".").getLast?
  if name = ".." then none else some name

/-- What follows the last dot of a name that does not begin with it. -/
def extension? (name : String) : Option String :=
  match (name.splitOn ".").reverse with
  | last :: before :: rest => if before = "" ∧ rest = [] then none else some last
  | _ => none

namespace Format

/-- The format of the file at a path. -/
def ofPath (path : String) : Format :=
  match (fileName? path).bind extension? with
  | some e => if e.toLower = "json" then .json else .toml
  | none => .toml

/-- What a text in this format says. -/
def read : Format → String → Option Text.Document
  | json, text => Text.Json.parse text
  | toml, text => Text.Toml.parse text

/-- A table in this format. -/
def write : Format → Text.Document → Option String
  | json, d => some (Text.Json.render d)
  | toml, d => Text.Toml.render d

end Format

end Settings
end Oscilloscope
