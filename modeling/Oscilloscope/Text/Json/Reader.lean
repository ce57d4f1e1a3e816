import Oscilloscope.Text.Json.Token

/-!
# Oscilloscope.Text.Json.Reader

Reading a JSON text.

`parse` accepts exactly one value with nothing but space around it. A table keeps all its entries,
also those with the same name; a name that holds half a character spoils its table.
-/

namespace Oscilloscope
namespace Text
namespace Json

/-- A table of named values, where a name may have no meaning. -/
def tableOf (entries : List (Option String × Document)) : Document :=
  match entries.mapM fun e => e.1.map (·, e.2) with
  | some entries => .table true entries
  | none => .spoiled

mutual

/-- The value at the front, and the tokens behind it. -/
def value : Nat → List Token → Option (Document × List Token)
  | 0, _ => none
  | fuel + 1, tokens =>
    match tokens with
    | .null :: rest => some (.null, rest)
    | .flag b :: rest => some (.flag b, rest)
    | .number n :: rest => some (n.document, rest)
    | .text none :: rest => some (.spoiled, rest)
    | .text (some s) :: rest => some (.text s, rest)
    | .openList :: .closeList :: rest => some (.list [], rest)
    | .openList :: rest => (items fuel rest).map fun p => (.list p.1, p.2)
    | .openTable :: .closeTable :: rest => some (.table true [], rest)
    | .openTable :: rest => (entries fuel rest).map fun p => (tableOf p.1, p.2)
    | _ => none

/-- The items of a list, of which there is at least one, up to its end. -/
def items : Nat → List Token → Option (List Document × List Token)
  | 0, _ => none
  | fuel + 1, tokens => do
    let (first, rest) ← value fuel tokens
    match rest with
    | .closeList :: rest => some ([first], rest)
    | .comma :: rest =>
      let (others, rest) ← items fuel rest
      some (first :: others, rest)
    | _ => none

/-- The entries of a table, of which there is at least one, up to its end. -/
def entries : Nat → List Token → Option (List (Option String × Document) × List Token)
  | 0, _ => none
  | fuel + 1, tokens =>
    match tokens with
    | .text name :: .colon :: tokens => do
      let (first, rest) ← value fuel tokens
      match rest with
      | .closeTable :: rest => some ([(name, first)], rest)
      | .comma :: rest =>
        let (others, rest) ← entries fuel rest
        some ((name, first) :: others, rest)
      | _ => none
    | _ => none

end

def parse (text : String) : Option Document := do
  let tokens ← scan text
  match value (2 * tokens.length + 1) tokens with
  | some (document, []) => some document
  | _ => none

end Json
end Text
end Oscilloscope
