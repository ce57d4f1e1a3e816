import Oscilloscope.Text.Json.Numeral

/-!
# Oscilloscope.Text.Json.Token

The tokens of a JSON text.

* `Piece` is one unit of a quoted text: a character, or half a character that an escape names.
  `joinPieces` puts halves together; a half alone has no meaning.
* `scan` cuts a text into tokens. It fails on what is no token; which tokens may follow each other
  is not its concern.
-/

namespace Oscilloscope
namespace Text
namespace Json

inductive Token where
  | openTable
  | closeTable
  | openList
  | closeList
  | colon
  | comma
  | null
  | flag (value : Bool)
  | number (numeral : Numeral)
  /-- A quoted text, or `none` if it holds half a character. -/
  | text (value : Option String)
deriving DecidableEq

/-! ## Quoted text -/

inductive Piece where
  | char (c : Char)
  /-- The sixteen bits of an escape. -/
  | unit (n : Nat)
deriving DecidableEq

def hexDigit? (c : Char) : Option Nat :=
  if '0' ≤ c ∧ c ≤ '9' then some (c.toNat - 48)
  else if 'a' ≤ c ∧ c ≤ 'f' then some (c.toNat - 87)
  else if 'A' ≤ c ∧ c ≤ 'F' then some (c.toNat - 55)
  else none

/-- The number that hexadecimal digits stand for. -/
def hexNumber? (digits : List Char) : Option Nat :=
  digits.foldlM (fun n c => (hexDigit? c).map (n * 16 + ·)) 0

/-- The character that a one-letter escape stands for. -/
def letterEscape? : Char → Option Char
  | '"' => some '"'
  | '\\' => some '\\'
  | '/' => some '/'
  | 'b' => some (Char.ofNat 8)
  | 'f' => some (Char.ofNat 12)
  | 'n' => some '\n'
  | 'r' => some '\r'
  | 't' => some '\t'
  | _ => none

/-- The pieces up to the closing quote, and what follows it. A control character has to be
escaped. -/
def scanText : List Char → Option (List Piece × List Char)
  | '"' :: rest => some ([], rest)
  | '\\' :: 'u' :: a :: b :: c :: d :: rest => do
    let n ← hexNumber? [a, b, c, d]
    let (pieces, rest) ← scanText rest
    some (.unit n :: pieces, rest)
  | '\\' :: c :: rest => do
    let c ← letterEscape? c
    let (pieces, rest) ← scanText rest
    some (.char c :: pieces, rest)
  | c :: rest => do
    if c.toNat < 32 ∨ c = '\\' then none
    let (pieces, rest) ← scanText rest
    some (.char c :: pieces, rest)
  | [] => none

/-- The first half of a character outside the sixteen-bit range. -/
def isHigh (n : Nat) : Bool := decide (0xD800 ≤ n ∧ n ≤ 0xDBFF)

def isLow (n : Nat) : Bool := decide (0xDC00 ≤ n ∧ n ≤ 0xDFFF)

def joinPieces : List Piece → Option (List Char)
  | [] => some []
  | .char c :: rest => (joinPieces rest).map (c :: ·)
  | .unit high :: .unit low :: rest =>
    if isHigh high ∧ isLow low then
      (joinPieces rest).map (Char.ofNat (0x10000 + (high - 0xD800) * 0x400 + (low - 0xDC00)) :: ·)
    else if isHigh high ∨ isLow high then none
    else (joinPieces (.unit low :: rest)).map (Char.ofNat high :: ·)
  | .unit n :: rest =>
    if isHigh n ∨ isLow n then none else (joinPieces rest).map (Char.ofNat n :: ·)

/-! ## Numbers -/

def digit? (c : Char) : Option Nat :=
  if '0' ≤ c ∧ c ≤ '9' then some (c.toNat - 48) else none

/-- The digits at the front, and what follows them. -/
def takeDigits : List Char → List Nat × List Char
  | [] => ([], [])
  | c :: rest =>
    match digit? c with
    | some d => (d :: (takeDigits rest).1, (takeDigits rest).2)
    | none => ([], c :: rest)

/-- The whole part: a zero, or digits that do not begin with one. -/
def scanWhole : List Char → Option (List Nat × List Char)
  | '0' :: rest => some ([0], rest)
  | cs =>
    match takeDigits cs with
    | ([], _) => none
    | found => some found

/-- The fraction, if a point begins one. -/
def scanFraction : List Char → Option (List Nat × List Char)
  | '.' :: cs =>
    match takeDigits cs with
    | ([], _) => none
    | found => some found
  | cs => some ([], cs)

/-- The sign of an exponent, if there is one. -/
def scanSign : List Char → Bool × List Char
  | '+' :: cs => (false, cs)
  | '-' :: cs => (true, cs)
  | cs => (false, cs)

/-- The exponent, if a letter begins one. -/
def scanExponent : List Char → Option (Option (Bool × List Nat) × List Char)
  | c :: cs =>
    if c = 'e' ∨ c = 'E' then
      let (negative, cs) := scanSign cs
      match takeDigits cs with
      | ([], _) => none
      | (digits, cs) => some (some (negative, digits), cs)
    else some (none, c :: cs)
  | [] => some (none, [])

/-- The number at the front. -/
def scanNumber (negative : Bool) (cs : List Char) : Option (Numeral × List Char) := do
  let (whole, cs) ← scanWhole cs
  let (fraction, cs) ← scanFraction cs
  let (exponent, cs) ← scanExponent cs
  some (⟨negative, whole, fraction, exponent⟩, cs)

/-! ## Tokens -/

/-- The token at the front, which is not empty and begins with no space. -/
def scanToken : List Char → Option (Token × List Char)
  | '\x7b' :: rest => some (.openTable, rest)
  | '\x7d' :: rest => some (.closeTable, rest)
  | '[' :: rest => some (.openList, rest)
  | ']' :: rest => some (.closeList, rest)
  | ':' :: rest => some (.colon, rest)
  | ',' :: rest => some (.comma, rest)
  | 'n' :: 'u' :: 'l' :: 'l' :: rest => some (.null, rest)
  | 't' :: 'r' :: 'u' :: 'e' :: rest => some (.flag true, rest)
  | 'f' :: 'a' :: 'l' :: 's' :: 'e' :: rest => some (.flag false, rest)
  | '"' :: rest => do
    let (pieces, rest) ← scanText rest
    some (.text ((joinPieces pieces).map String.ofList), rest)
  | '-' :: rest => (scanNumber true rest).map fun p => (.number p.1, p.2)
  | cs => (scanNumber false cs).map fun p => (.number p.1, p.2)

def isSpace (c : Char) : Bool := c == ' ' || c == '\t' || c == '\n' || c == '\r'

/-- The tokens of a text, of which every one takes at least a character. -/
def scanAll : Nat → List Char → Option (List Token)
  | 0, cs => if cs.isEmpty then some [] else none
  | _ + 1, [] => some []
  | fuel + 1, c :: cs =>
    if isSpace c then scanAll fuel cs
    else do
      let (token, rest) ← scanToken (c :: cs)
      let tokens ← scanAll fuel rest
      some (token :: tokens)

def scan (text : String) : Option (List Token) :=
  let cs := text.toList
  scanAll cs.length cs

end Json
end Text
end Oscilloscope
