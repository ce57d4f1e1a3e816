import Oscilloscope.Text.Decimal
import Oscilloscope.Text.Document
import Oscilloscope.Text.Toml.Quoted

/-!
# Oscilloscope.Text.Toml.Printer

Writing a table as a TOML text.

A table is written as a section: its header, then its values, one a line. The tables inside it
follow as sections of their own, in order, with an empty line between two sections. An entry that
is `null` is left out.

A text is quoted in the first of several ways that fits it (`quote`), so that most texts need no
escape. `render` fails on what has no place in a section: integers beyond 64 signed bits, dates,
lists, and names that need quotes.
-/

namespace Oscilloscope
namespace Text
namespace Toml

/-! ## Texts -/

/-- The longest run of `c`, behind a run of `run`. -/
def longestRun (c : Char) (run : Nat) : List Char → Nat
  | [] => run
  | d :: rest => if d = c then longestRun c (run + 1) rest else max run (longestRun c 0 rest)

/-- Whether a character can only be written as an escape. -/
def needsEscape (c : Char) : Bool := !isPlain c && c != '\n'

/-- The escape of a character. -/
def escapeOf (c : Char) : List Char :=
  if c.toNat = 8 then ['\\', 'b']
  else if c = '\t' then ['\\', 't']
  else if c = '\n' then ['\\', 'n']
  else if c.toNat = 12 then ['\\', 'f']
  else if c = '\r' then ['\\', 'r']
  else if c = '"' ∨ c = '\\' then ['\\', c]
  else
    let digits := (Nat.toDigits 16 c.toNat).map Char.toUpper
    ['\\', 'u'] ++ List.replicate (4 - digits.length) '0' ++ digits

/-- A text with escapes. In a block, line feeds and up to two quotes in a row stand for
themselves. -/
def escaped (inBlock : Bool) (quotes : Nat) : List Char → List Char
  | [] => []
  | c :: rest =>
    if c = '"' then
      (if inBlock ∧ quotes < 2 then [c] else escapeOf c) ++ escaped inBlock (quotes + 1) rest
    else if c = '\\' ∨ c = '\t' ∨ needsEscape c ∨ (c = '\n' ∧ !inBlock) then
      escapeOf c ++ escaped inBlock 0 rest
    else c :: escaped inBlock 0 rest

def delimited (delimiter : List Char) (body : List Char) : String :=
  String.ofList (delimiter ++ body ++ delimiter)

/-- A block. A line feed in it moves its first line behind the line of the delimiter. -/
def blockDelimited (delimiter : List Char) (body : List Char) : String :=
  delimited delimiter (if '\n' ∈ body then '\n' :: body else body)

/-- A text between quotes: in one line, in one line between apostrophes, in a block, or in a block
between apostrophes, whichever is the first that needs no escape but for tabs. A text that needs one
in every way is written with escapes, in a block if it has a line feed. -/
def quote (s : String) : String :=
  let cs := s.toList
  let control := cs.any needsEscape
  let lines := decide ('\n' ∈ cs)
  let backslash := decide ('\\' ∈ cs)
  let doubles := longestRun '"' 0 cs
  let singles := longestRun apostrophe 0 cs
  let inLine := delimited ['"'] (escaped false 0 cs)
  let inBlock := blockDelimited ['"', '"', '"'] (escaped true 0 cs)
  if !control ∧ !backslash ∧ doubles = 0 ∧ !lines then inLine
  else if !control ∧ singles = 0 ∧ !lines then delimited [apostrophe] cs
  else if !control ∧ !backslash ∧ doubles ≤ 2 then inBlock
  else if !control ∧ singles ≤ 2 then blockDelimited [apostrophe, apostrophe, apostrophe] cs
  else if lines then inBlock
  else inLine

/-! ## Values -/

/-- Numbers never have an exponent, and always a point. -/
def numbers : Style := ⟨.upper, -400, 400, true, false, "inf", "nan"⟩

def real (d : Double) : String :=
  (if d.isNaN ∧ d.isNegative then "-" else "") ++ numbers.render d

/-- The text of a value on one line. -/
def scalarText : Document → Option String
  | .flag b => some (if b then "true" else "false")
  | .integer n => if isWord n then some (toString n) else none
  | .real d => some (real d)
  | .text s => some (quote s)
  | _ => none

/-! ## Sections -/

def isBare (name : String) : Bool :=
  !name.isEmpty && name.toList.all fun c => c.isAlphanum || c == '_' || c == '-'

/-- The lines of the values of a section. -/
def valueLines : List (String × Document) → Option (List String)
  | [] => some []
  | (_, .null) :: rest => valueLines rest
  | (_, .table _ _) :: rest => valueLines rest
  | (name, d) :: rest => do
    if !isBare name then none
    let text ← scalarText d
    let lines ← valueLines rest
    some ((name ++ " = " ++ text ++ "\n") :: lines)

/-- A section, if there is anything to write: a table that holds only tables needs none. -/
def sectionText (path : List String) (lines : List String) (isEmpty : Bool) : List String :=
  if lines.isEmpty ∧ (path.isEmpty ∨ !isEmpty) then []
  else
    let header := if path.isEmpty then "" else "[" ++ String.intercalate "." path ++ "]\n"
    [header ++ String.join lines]

/-- The sections of the table at `path`. -/
def sections (path : List String) : Document → Option (List String)
  | .table _ entries => do
    let lines ← valueLines entries
    let inner ← sectionsOf path entries
    some (sectionText path lines entries.isEmpty ++ inner)
  | _ => some []
where
  /-- The sections of the tables among some entries. -/
  sectionsOf (path : List String) : List (String × Document) → Option (List String)
    | [] => some []
    | (name, .table closed entries) :: rest => do
      if !isBare name then none
      let first ← sections (path ++ [name]) (.table closed entries)
      let others ← sectionsOf path rest
      some (first ++ others)
    | _ :: rest => sectionsOf path rest

def render (d : Document) : Option String :=
  (sections [] d).map (String.intercalate "\n")

end Toml
end Text
end Oscilloscope
