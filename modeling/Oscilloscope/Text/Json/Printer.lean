import Oscilloscope.Text.Decimal
import Oscilloscope.Text.Document

/-!
# Oscilloscope.Text.Json.Printer

Writing a document as a JSON text, one entry a line, two spaces for every level.

What JSON has no word for, infinite values and values that are no number among them, is written as
`null`.
-/

namespace Oscilloscope
namespace Text
namespace Json

/-- Numbers have a point or an exponent; sixteen digits before the point are the most. -/
def numbers : Style := ⟨.even, -5, 15, true, true, "null", "null"⟩

def real (d : Double) : String :=
  if d.isNaN ∨ d.isInfinite then "null" else numbers.render d

/-- How a character is written inside quotes. -/
def quoteChar (c : Char) : List Char :=
  if c = '"' then ['\\', '"']
  else if c = '\\' then ['\\', '\\']
  else if c = '\n' then ['\\', 'n']
  else if c = '\r' then ['\\', 'r']
  else if c = '\t' then ['\\', 't']
  else if c.toNat = 8 then ['\\', 'b']
  else if c.toNat = 12 then ['\\', 'f']
  else if c.toNat < 32 then
    let digits := Nat.toDigits 16 c.toNat
    ['\\', 'u'] ++ List.replicate (4 - digits.length) '0' ++ digits
  else [c]

def quote (s : String) : String := "\"" ++ String.ofList (s.toList.flatMap quoteChar) ++ "\""

/-- A new line at a level. -/
def newLine (level : Nat) : String := "\n" ++ String.ofList (List.replicate (2 * level) ' ')

mutual

def renderAt (level : Nat) : Document → String
  | .flag b => if b then "true" else "false"
  | .integer n => toString n
  | .real d => real d
  | .text s => quote s
  | .list [] => "[]"
  | .list (first :: rest) =>
    "[" ++ newLine (level + 1) ++ renderAt (level + 1) first ++ renderItems (level + 1) rest ++
      newLine level ++ "]"
  | .table _ [] => "\x7b\x7d"
  | .table _ ((name, first) :: rest) =>
    "\x7b" ++ newLine (level + 1) ++ quote name ++ ": " ++ renderAt (level + 1) first ++
      renderEntries (level + 1) rest ++ newLine level ++ "\x7d"
  | _ => "null"

/-- The items after the first. -/
def renderItems (level : Nat) : List Document → String
  | [] => ""
  | first :: rest => "," ++ newLine level ++ renderAt level first ++ renderItems level rest

/-- The entries after the first. -/
def renderEntries (level : Nat) : List (String × Document) → String
  | [] => ""
  | (name, first) :: rest =>
    "," ++ newLine level ++ quote name ++ ": " ++ renderAt level first ++ renderEntries level rest

end

def render (d : Document) : String := renderAt 0 d

end Json
end Text
end Oscilloscope
