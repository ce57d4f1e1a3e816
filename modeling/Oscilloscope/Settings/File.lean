import Oscilloscope.Disk
import Oscilloscope.Failure
import Oscilloscope.Settings.Schema
import Oscilloscope.Settings.Validation

/-!
# Oscilloscope.Settings.File

Settings in files. The name of the file decides the format.

* `Settings.load` reads a file; a text that gives no settings is reported with the path.
* `Settings.save` writes one, and makes the directories that it lies in.
* `Settings.check` reports invalid settings as a failure.
-/

namespace Oscilloscope
namespace Settings

/-- How a character of a path is shown between quotes: ASCII that can be printed and what lies
beyond the controls as it is, quotes and backslashes behind a backslash, everything else by its
number. -/
def shownChar (c : Char) : List Char :=
  if c = '"' ∨ c = '\\' ∨ c = Text.Toml.apostrophe then ['\\', c]
  else if c = '\n' then ['\\', 'n']
  else if c = '\r' then ['\\', 'r']
  else if c = '\t' then ['\\', 't']
  else if c.toNat = 0 then ['\\', '0']
  else if c.toNat < 32 ∨ (127 ≤ c.toNat ∧ c.toNat < 160) then
    "\\u\x7b".toList ++ Nat.toDigits 16 c.toNat ++ ['\x7d']
  else [c]

/-- A path between quotes. -/
def shownPath (path : String) : String :=
  "\"" ++ String.ofList (path.toList.flatMap shownChar) ++ "\""

def load (disk : Disk) (path : String) : Except Failure Settings :=
  match disk.read path with
  | none => .error (.settings ("Failed to read config file " ++ shownPath path))
  | some text =>
    match parse (.ofPath path) text with
    | some s => .ok s
    | none =>
      .error (.within ("Failed to parse config file " ++ shownPath path)
        (.serialization "the text gives no settings"))

/-- Write settings to a file. The directories are made first, and stay if the rest fails. -/
def save (s : Settings) (disk : Disk) (path : String) : Except Failure Unit × Disk :=
  match disk.makeParents path with
  | none => (.error (.settings "Failed to create config directory"), disk)
  | some disk =>
    match s.render (.ofPath path) with
    | none => (.error (.serialization "the format cannot hold a value"), disk)
    | some text =>
      match disk.write path text with
      | none => (.error (.settings ("Failed to write config file " ++ shownPath path)), disk)
      | some disk => (.ok (), disk)

def check (s : Settings) : Except Failure Unit :=
  match s.validate with
  | .ok () => .ok ()
  | .error fault => .error (.settings fault.message)

end Settings
end Oscilloscope
