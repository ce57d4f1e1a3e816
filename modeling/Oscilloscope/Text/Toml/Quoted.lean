/-!
# Oscilloscope.Text.Toml.Quoted

Quoted texts in TOML.

| delimiter | lines | escapes | reader |
|-----------|-------|---------|--------|
| one double quote    | one  | yes | `basic` |
| three double quotes | many | yes | `basicBlock` |
| one apostrophe      | one  | no  | `literal` |
| three apostrophes   | many | no  | `literalBlock` |

Every reader begins behind the opening delimiter and returns the text and what follows the closing
one. In a block, a line break right behind the opening delimiter is dropped, every other one becomes
a line feed, and one or two quotes may stand before the closing delimiter.
-/

namespace Oscilloscope
namespace Text
namespace Toml

def apostrophe : Char := Char.ofNat 39

/-- Whether a character may stand for itself: a tab, or no control character. -/
def isPlain (c : Char) : Bool := c == '\t' || (decide (32 ≤ c.toNat) && decide (c.toNat ≠ 127))

def isBlank (c : Char) : Bool := c == ' ' || c == '\t'

/-- What follows the blanks at the front. -/
def skipBlanks (cs : List Char) : List Char := cs.dropWhile isBlank

/-- What follows the line break at the front, if there is one. -/
def newline? : List Char → Option (List Char)
  | '\n' :: rest => some rest
  | '\r' :: '\n' :: rest => some rest
  | _ => none

/-- What follows the blanks and line breaks at the front. -/
def skipSpace : List Char → List Char
  | [] => []
  | '\r' :: '\n' :: rest => skipSpace rest
  | c :: rest => if isBlank c ∨ c = '\n' then skipSpace rest else c :: rest

/-! ## Escapes -/

def hexDigit? (c : Char) : Option Nat :=
  if '0' ≤ c ∧ c ≤ '9' then some (c.toNat - 48)
  else if 'a' ≤ c ∧ c ≤ 'f' then some (c.toNat - 87)
  else if 'A' ≤ c ∧ c ≤ 'F' then some (c.toNat - 55)
  else none

/-- The character with a hexadecimal number; halves of characters are none. -/
def codePoint? (digits : List Char) : Option Char := do
  let n ← digits.foldlM (fun n c => (hexDigit? c).map (n * 16 + ·)) 0
  if n.isValidChar then some (Char.ofNat n) else none

def letterEscape? : Char → Option Char
  | 'b' => some (Char.ofNat 8)
  | 't' => some '\t'
  | 'n' => some '\n'
  | 'f' => some (Char.ofNat 12)
  | 'r' => some '\r'
  | '"' => some '"'
  | '\\' => some '\\'
  | _ => none

/-- The character of an escape, from behind its backslash on. -/
def escape : List Char → Option (Char × List Char)
  | 'u' :: a :: b :: c :: d :: rest => (codePoint? [a, b, c, d]).map (·, rest)
  | 'U' :: a :: b :: c :: d :: e :: f :: g :: h :: rest =>
    (codePoint? [a, b, c, d, e, f, g, h]).map (·, rest)
  | c :: rest => (letterEscape? c).map (·, rest)
  | [] => none

/-! ## One line -/

def basicText : Nat → List Char → Option (List Char × List Char)
  | 0, _ => none
  | fuel + 1, cs =>
    match cs with
    | '"' :: rest => some ([], rest)
    | '\\' :: rest => do
      let (c, rest) ← escape rest
      let (text, rest) ← basicText fuel rest
      some (c :: text, rest)
    | c :: rest => do
      if !isPlain c then none
      let (text, rest) ← basicText fuel rest
      some (c :: text, rest)
    | [] => none

def basic (cs : List Char) : Option (String × List Char) :=
  (basicText (cs.length + 1) cs).map fun p => (String.ofList p.1, p.2)

def literalText : List Char → Option (List Char × List Char)
  | [] => none
  | c :: rest =>
    if c = apostrophe then some ([], rest)
    else if !isPlain c then none
    else do
      let (text, rest) ← literalText rest
      some (c :: text, rest)

def literal (cs : List Char) : Option (String × List Char) :=
  (literalText cs).map fun p => (String.ofList p.1, p.2)

/-! ## Blocks -/

/-- How many of `quote` stand at the front, and what follows them. -/
def countQuotes (quote : Char) : List Char → Nat × List Char
  | [] => (0, [])
  | c :: rest =>
    if c = quote then ((countQuotes quote rest).1 + 1, (countQuotes quote rest).2)
    else (0, c :: rest)

/-- A run of `n` quotes in a block: the quotes that belong to the text, and how many are left behind
the closing delimiter if the run closes the block. -/
def closing? (n : Nat) : Nat × Option Nat :=
  if n < 3 then (n, none) else (min (n - 3) 2, some (n - 3 - min (n - 3) 2))

/-- What follows a backslash at the end of a line, without the blanks and line breaks there. `none`
if the line goes on. -/
def continuation? (cs : List Char) : Option (List Char) :=
  (newline? (skipBlanks cs)).map skipSpace

/-- The text of a block with or without escapes. -/
def blockText (quote : Char) (escapes : Bool) : Nat → List Char → Option (List Char × List Char)
  | 0, _ => none
  | fuel + 1, cs =>
    match newline? cs, cs with
    | some rest, _ => do
      let (text, rest) ← blockText quote escapes fuel rest
      some ('\n' :: text, rest)
    | none, [] => none
    | none, c :: rest =>
      if c = quote then
        let (n, rest) := countQuotes quote (c :: rest)
        match closing? n with
        | (inside, some left) =>
          some (List.replicate inside quote, List.replicate left quote ++ rest)
        | (inside, none) => do
          let (text, rest) ← blockText quote escapes fuel rest
          some (List.replicate inside quote ++ text, rest)
      else if escapes ∧ c = '\\' then
        match continuation? rest with
        | some rest => blockText quote escapes fuel rest
        | none => do
          let (c, rest) ← escape rest
          let (text, rest) ← blockText quote escapes fuel rest
          some (c :: text, rest)
      else if !isPlain c then none
      else do
        let (text, rest) ← blockText quote escapes fuel rest
        some (c :: text, rest)

def block (quote : Char) (escapes : Bool) (cs : List Char) : Option (String × List Char) :=
  let cs := (newline? cs).getD cs
  (blockText quote escapes (cs.length + 1) cs).map fun p => (String.ofList p.1, p.2)

def basicBlock (cs : List Char) : Option (String × List Char) := block '"' true cs

def literalBlock (cs : List Char) : Option (String × List Char) := block apostrophe false cs

end Toml
end Text
end Oscilloscope
