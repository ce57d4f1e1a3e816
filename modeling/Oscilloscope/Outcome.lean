/-!
# Oscilloscope.Outcome

The answer of a function that checks what it is given and computes with words on the way.

A number that is too large for its word is no error that the function reports: there the function
aborts.
-/

namespace Oscilloscope

inductive Outcome (ε α : Type) where
  | ok (value : α)
  | error (reason : ε)
  /-- A number did not fit its word, and the function aborted. -/
  | overflow
deriving DecidableEq

namespace Outcome

def ofExcept {ε α : Type} : Except ε α → Outcome ε α
  | .ok a => ok a
  | .error e => error e

def toOption {ε α : Type} : Outcome ε α → Option α
  | ok a => some a
  | _ => none

def isOk {ε α : Type} : Outcome ε α → Bool
  | ok _ => true
  | _ => false

def isError {ε α : Type} : Outcome ε α → Bool
  | error _ => true
  | _ => false

def isOverflow {ε α : Type} : Outcome ε α → Bool
  | overflow => true
  | _ => false

end Outcome

end Oscilloscope
