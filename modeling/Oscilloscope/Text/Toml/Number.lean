import Oscilloscope.Text.Document

/-!
# Oscilloscope.Text.Toml.Number

Numbers and dates in TOML.

`scalar` reads what begins with a digit or a sign: a date or a time, a real number, or an integer.
Integers are those of 64 signed bits; a real number is the nearest double, and only a negative one
may be too large for a finite one. Digits may be grouped with underscores, each between two digits.
-/

namespace Oscilloscope
namespace Text
namespace Toml

/-- The value of a digit in a base up to sixteen. -/
def digitIn? (base : Nat) (c : Char) : Option Nat := do
  let d ←
    if '0' ≤ c ∧ c ≤ '9' then some (c.toNat - 48)
    else if 'a' ≤ c ∧ c ≤ 'f' then some (c.toNat - 87)
    else if 'A' ≤ c ∧ c ≤ 'F' then some (c.toNat - 55)
    else none
  if d < base then some d else none

/-- More digits after a digit, each perhaps behind an underscore, and what follows them. An
underscore must have a digit behind it. -/
def moreDigits (base : Nat) : List Char → Option (List Nat × List Char)
  | '_' :: c :: rest => do
    let d ← digitIn? base c
    let (digits, rest) ← moreDigits base rest
    some (d :: digits, rest)
  | ['_'] => none
  | c :: rest =>
    match digitIn? base c with
    | some d => do
      let (digits, rest) ← moreDigits base rest
      some (d :: digits, rest)
    | none => some ([], c :: rest)
  | [] => some ([], [])

/-- Digits, of which there is at least one. -/
def digits (base : Nat) : List Char → Option (List Nat × List Char)
  | c :: rest => do
    let d ← digitIn? base c
    let (digits, rest) ← moreDigits base rest
    some (d :: digits, rest)
  | [] => none

def valueIn (base : Nat) (digits : List Nat) : Nat := digits.foldl (fun n d => n * base + d) 0

/-! ## Dates and times -/

/-- A number of exactly `count` decimal digits, and what follows it. -/
def fixedDigits (count : Nat) (cs : List Char) : Option (Nat × List Char) := do
  let found := cs.take count
  if found.length < count then none
  let digits ← found.mapM (digitIn? 10)
  some (valueIn 10 digits, cs.drop count)

/-- A number of two digits from `low` to `high`. -/
def twoDigits (low high : Nat) (cs : List Char) : Option (Nat × List Char) := do
  let (n, rest) ← fixedDigits 2 cs
  if low ≤ n ∧ n ≤ high then some (n, rest) else none

def expect (c : Char) : List Char → Option (List Char)
  | [] => none
  | d :: rest => if d = c then some rest else none

def daysIn (year month : Nat) : Nat :=
  if month = 2 then
    if year % 4 = 0 ∧ (year % 100 ≠ 0 ∨ year % 400 = 0) then 29 else 28
  else if month = 4 ∨ month = 6 ∨ month = 9 ∨ month = 11 then 30
  else 31

/-- What follows a date. -/
def date (cs : List Char) : Option (List Char) := do
  let (year, cs) ← fixedDigits 4 cs
  let cs ← expect '-' cs
  let (month, cs) ← twoDigits 1 12 cs
  let cs ← expect '-' cs
  let (_, cs) ← twoDigits 1 (daysIn year month) cs
  some cs

/-- What follows the fraction of a second, if there is one. -/
def secondFraction : List Char → List Char
  | '.' :: c :: rest =>
    if c.isDigit then rest.dropWhile Char.isDigit else '.' :: c :: rest
  | cs => cs

/-- What follows a time of day. A minute may have a leap second. -/
def time (cs : List Char) : Option (List Char) := do
  let (_, cs) ← twoDigits 0 23 cs
  let cs ← expect ':' cs
  let (_, cs) ← twoDigits 0 59 cs
  let cs ← expect ':' cs
  let (_, cs) ← twoDigits 0 60 cs
  some (secondFraction cs)

/-- What follows the distance from universal time, if there is one. -/
def offset : List Char → Option (List Char)
  | [] => some []
  | c :: rest =>
    if c = 'Z' ∨ c = 'z' then some rest
    else if c = '+' ∨ c = '-' then do
      let (_, cs) ← twoDigits 0 23 rest
      let cs ← expect ':' cs
      let (_, cs) ← twoDigits 0 59 cs
      some cs
    else some (c :: rest)

/-- Whether a time of day begins here. -/
def beginsTime (cs : List Char) : Bool :=
  match twoDigits 0 23 cs with
  | some (_, ':' :: _) => true
  | _ => false

/-- Whether a date begins here. -/
def beginsDate (cs : List Char) : Bool :=
  match fixedDigits 4 cs with
  | some (_, '-' :: _) => true
  | _ => false

/-- What follows a date with, perhaps, a time of day behind it. -/
def dateTime (cs : List Char) : Option (List Char) := do
  let cs ← date cs
  match cs with
  | c :: rest =>
    if (c = 'T' ∨ c = 't' ∨ c = ' ') ∧ beginsTime rest then do
      let cs ← time rest
      offset cs
    else some (c :: rest)
  | [] => some []

/-! ## Numbers -/

/-- The whole part: a zero, or digits that do not begin with one. -/
def wholePart : List Char → Option (List Nat × List Char)
  | '0' :: rest => some ([0], rest)
  | cs => digits 10 cs

/-- The fraction, if a point begins one. -/
def fraction : List Char → Option (List Nat × List Char)
  | '.' :: rest => digits 10 rest
  | cs => some ([], cs)

/-- The exponent, if a letter begins one. -/
def exponent : List Char → Option (Option Int × List Char)
  | c :: rest =>
    if c = 'e' ∨ c = 'E' then do
      let (negative, rest) := match rest with
        | '+' :: rest => (false, rest)
        | '-' :: rest => (true, rest)
        | rest => (false, rest)
      let (digits, rest) ← digits 10 rest
      let n := valueIn 10 digits
      some (some (if negative then -(n : Int) else n), rest)
    else some (none, c :: rest)
  | [] => some (none, [])

/-- An integer of 64 signed bits. -/
def integer? (n : Int) : Option Document :=
  if isWord n then some (.integer n) else none

/-- A real number. -/
def real? (negative : Bool) (digits : List Nat) (exponent : Int) : Option Document :=
  let d := Double.ofDecimal (valueIn 10 digits) exponent
  if negative then some (.real d.negate) else if d.isInfinite then none else some (.real d)

/-- A decimal number behind its sign. -/
def decimal (negative : Bool) (cs : List Char) : Option (Document × List Char) := do
  let (whole, cs) ← wholePart cs
  let (fraction, cs) ← fraction cs
  let (exponent, cs) ← exponent cs
  let number ←
    if fraction.isEmpty ∧ exponent.isNone then
      integer? (if negative then -(valueIn 10 whole : Int) else valueIn 10 whole)
    else real? negative (whole ++ fraction) (exponent.getD 0 - fraction.length)
  some (number, cs)

/-- Infinity and what is no number, by name. -/
def named? (negative : Bool) : List Char → Option (Document × List Char)
  | 'i' :: 'n' :: 'f' :: rest =>
    some (.real (if negative then Double.infinity.negate else .infinity), rest)
  | 'n' :: 'a' :: 'n' :: rest =>
    some (.real (if negative then Double.nan.negate else .nan), rest)
  | _ => none

/-- An integer in another base, behind its mark. -/
def based (base : Nat) (cs : List Char) : Option (Document × List Char) := do
  let (digits, cs) ← digits base cs
  let number ← integer? (valueIn base digits)
  some (number, cs)

/-- A number with a sign in front. -/
def signed (negative : Bool) (cs : List Char) : Option (Document × List Char) :=
  (named? negative cs).or (decimal negative cs)

def scalar (cs : List Char) : Option (Document × List Char) :=
  if beginsDate cs then (dateTime cs).map (.date, ·)
  else if beginsTime cs then (time cs).map (.date, ·)
  else
    match cs with
    | '+' :: rest => signed false rest
    | '-' :: rest => signed true rest
    | '0' :: 'x' :: rest => based 16 rest
    | '0' :: 'o' :: rest => based 8 rest
    | '0' :: 'b' :: rest => based 2 rest
    | cs => decimal false cs

end Toml
end Text
end Oscilloscope
