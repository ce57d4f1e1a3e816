import Oscilloscope.Text.Toml.Number
import Oscilloscope.Text.Toml.Quoted
import Oscilloscope.Text.Toml.Tables

/-!
# Oscilloscope.Text.Toml.Reader

Reading a TOML text.

* `key` reads a dotted key, `value` a value with all that is inside it.
* `statements` reads the text: every line is empty, holds a header, or assigns a value. What a line
  may add is decided by `Table`.
* `parse` is the whole. A byte order mark may stand in front.

Values lie less than `depthLimit` deep, and keys have fewer parts than that.
-/

namespace Oscilloscope
namespace Text
namespace Toml

def depthLimit : Nat := 80

/-! ## Keys -/

def isKeyChar (c : Char) : Bool := c.isAlphanum || c == '_' || c == '-'

/-- One part of a key. -/
def simpleKey : List Char → Option (String × List Char)
  | [] => none
  | c :: rest =>
    if c = '"' then basic rest
    else if c = apostrophe then literal rest
    else
      let name := (c :: rest).takeWhile isKeyChar
      if name.isEmpty then none else some (String.ofList name, (c :: rest).dropWhile isKeyChar)

/-- A dotted key of at most so many parts, with blanks around every part. -/
def keyParts : Nat → List Char → Option (List String × List Char)
  | 0, _ => none
  | count + 1, cs => do
    let (part, rest) ← simpleKey (skipBlanks cs)
    match skipBlanks rest with
    | '.' :: rest =>
      let (parts, rest) ← keyParts count rest
      some (part :: parts, rest)
    | rest => some ([part], rest)

def key (cs : List Char) : Option ((List String × String) × List Char) := do
  let (parts, rest) ← keyParts (depthLimit - 1) cs
  let last ← parts.getLast?
  some ((parts.dropLast, last), rest)

/-! ## Values -/

/-- What follows a comment up to the end of its line. -/
def skipComment (cs : List Char) : List Char := cs.dropWhile isPlain

/-- What follows the end of a line: a line break, or the end of the text. -/
def lineBreak : List Char → Option (List Char)
  | [] => some []
  | cs => newline? cs

/-- What follows the rest of a line that holds nothing but, perhaps, a comment. -/
def endLine (cs : List Char) : Option (List Char) :=
  match skipBlanks cs with
  | '#' :: rest => lineBreak (skipComment rest)
  | rest => lineBreak rest

/-- What follows blanks, line breaks and comments. A comment must end in a line break. -/
def skipLines : Nat → List Char → Option (List Char)
  | 0, cs => some cs
  | fuel + 1, cs =>
    match skipBlanks cs with
    | '#' :: rest => (newline? (skipComment rest)).bind (skipLines fuel)
    | rest =>
      match newline? rest with
      | some rest => skipLines fuel rest
      | none => some rest

/-- A quoted text. -/
def quoted : List Char → Option (String × List Char)
  | '"' :: '"' :: '"' :: rest => basicBlock rest
  | '"' :: rest => basic rest
  | c :: d :: e :: rest =>
    if c = apostrophe ∧ d = apostrophe ∧ e = apostrophe then literalBlock rest
    else if c = apostrophe then literal (d :: e :: rest)
    else none
  | c :: rest => if c = apostrophe then literal rest else none
  | [] => none

/-- A value on one line: a text, a truth value, a number, or a date. -/
def atom : List Char → Option (Document × List Char)
  | 't' :: 'r' :: 'u' :: 'e' :: rest => some (.flag true, rest)
  | 'f' :: 'a' :: 'l' :: 's' :: 'e' :: rest => some (.flag false, rest)
  | c :: rest =>
    if c = '"' ∨ c = apostrophe then (quoted (c :: rest)).map fun p => (.text p.1, p.2)
    else if c = 'i' ∨ c = 'n' then named? false (c :: rest)
    else if c.isDigit ∨ c = '+' ∨ c = '-' then scalar (c :: rest)
    else none
  | [] => none

mutual

/-- The value at the front. `depth` is how many lists and tables it lies in. -/
def value : Nat → Nat → List Char → Option (Document × List Char)
  | 0, _, _ => none
  | fuel + 1, depth, cs =>
    match cs with
    | '[' :: rest =>
      if depthLimit ≤ depth + 1 then none
      else (items fuel (depth + 1) rest).map fun p => (.list p.1, p.2)
    | '\x7b' :: rest =>
      if depthLimit ≤ depth + 1 then none
      else
        match skipBlanks rest with
        | '\x7d' :: rest => some (.table true [], rest)
        | rest => do
          let (t, rest) ← pairs fuel (depth + 1) ⟨.header, []⟩ rest
          some (t.document true, rest)
    | cs => atom cs

/-- The items of a list up to its end. A comma may follow the last one. -/
def items : Nat → Nat → List Char → Option (List Document × List Char)
  | 0, _, _ => none
  | fuel + 1, depth, cs => do
    let cs ← skipLines (cs.length + 1) cs
    match cs with
    | ']' :: rest => some ([], rest)
    | cs =>
      let (first, rest) ← value fuel depth cs
      let rest ← skipLines (rest.length + 1) rest
      match rest with
      | ']' :: rest => some ([first], rest)
      | ',' :: rest =>
        let (others, rest) ← items fuel depth rest
        some (first :: others, rest)
      | _ => none

/-- The entries of a table between braces, of which there is at least one, up to its end. -/
def pairs : Nat → Nat → Table → List Char → Option (Table × List Char)
  | 0, _, _, _ => none
  | fuel + 1, depth, t, cs => do
    let ((path, last), rest) ← key cs
    match rest with
    | '=' :: rest =>
      let (d, rest) ← value fuel depth (skipBlanks rest)
      let t ← t.assign path last d
      match skipBlanks rest with
      | '\x7d' :: rest => some (t, rest)
      | ',' :: rest => pairs fuel depth t rest
      | _ => none
    | _ => none

end

/-! ## The text -/

/-- What has been read: all tables, and the path of the one under the last header. -/
structure Progress where
  root : Table := ⟨.header, []⟩
  current : List String := []

/-- A header behind its opening brackets. -/
def header (p : Progress) (list : Bool) (cs : List Char) : Option (Progress × List Char) := do
  let ((path, last), rest) ← key cs
  let rest ← match list, rest with
    | true, ']' :: ']' :: rest => some rest
    | false, ']' :: rest => some rest
    | _, _ => none
  let rest ← endLine rest
  let root ← if list then p.root.extend path last else p.root.declare path last
  some (⟨root, path ++ [last]⟩, rest)

/-- An assignment in the current table. -/
def assignment (p : Progress) (cs : List Char) : Option (Progress × List Char) := do
  let ((path, last), rest) ← key cs
  match rest with
  | '=' :: rest =>
    let (d, rest) ← value (rest.length + 1) 0 (skipBlanks rest)
    let rest ← endLine rest
    let root ← p.root.within .passing (fun t => t.assign path last d) p.current
    some ({ p with root }, rest)
  | _ => none

def statements : Nat → Progress → List Char → Option Table
  | 0, _, _ => none
  | fuel + 1, p, cs =>
    match skipBlanks cs with
    | [] => some p.root
    | '#' :: rest => (lineBreak (skipComment rest)).bind (statements fuel p)
    | '[' :: '[' :: rest => do
      let (p, rest) ← header p true rest
      statements fuel p rest
    | '[' :: rest => do
      let (p, rest) ← header p false rest
      statements fuel p rest
    | rest =>
      match newline? rest with
      | some rest => statements fuel p rest
      | none => do
        let (p, rest) ← assignment p rest
        statements fuel p rest

/-- The characters behind a byte order mark. -/
def skipMark : List Char → List Char
  | c :: rest => if c.toNat = 0xFEFF then rest else c :: rest
  | [] => []

def parse (text : String) : Option Document := do
  let cs := skipMark text.toList
  let t ← statements (cs.length + 1) {} cs
  some (t.document false)

end Toml
end Text
end Oscilloscope
