import Oscilloscope.Text.Document

/-!
# Oscilloscope.Text.Toml.Tables

The tables of a TOML text while it is read.

A table can come into being in three ways (`Origin`): under a header of its own, on the way to
another header, or on the way to a dotted key. That decides what may still be added to it.

* `Table.within` goes to the table at a path and changes it there; missing tables are made on the
  way. On the way to a header every table may be passed, on the way to a dotted key only one that
  dotted keys have made.
* `Table.assign` adds a value under a dotted key. No key is assigned twice.
* `Table.declare` and `Table.extend` are the two kinds of header: a table, and one more table of a
  list.
-/

namespace Oscilloscope
namespace Text
namespace Toml

inductive Origin where
  /-- Under its own header, or as the whole text. -/
  | header
  /-- On the way to a header. -/
  | passing
  /-- On the way to a dotted key. -/
  | dotted
deriving DecidableEq, Repr

/-- What a key stands for. -/
inductive Node where
  | value (document : Document)
  | table (origin : Origin) (entries : List (String × Node))
  /-- A list of tables, each under a header. -/
  | tables (items : List (List (String × Node)))

/-- A table: how it came into being, and its entries in order. -/
structure Table where
  origin : Origin
  entries : List (String × Node) := []

namespace Table

/-- Change what `key` stands for; a new key goes to the end. -/
def alter (t : Table) (key : String) (f : Option Node → Option Node) : Option Table :=
  match t.entries.lookup key with
  | none => (f none).map fun n => { t with entries := t.entries ++ [(key, n)] }
  | some old =>
    (f (some old)).map fun n =>
      { t with entries := t.entries.map fun e => if e.1 = key then (key, n) else e }

/-- Change the table at `path`. Tables made on the way have the given origin. -/
def within (made : Origin) (f : Table → Option Table) : List String → Table → Option Table
  | [], t => f t
  | key :: path, t => t.alter key fun
    | none => (within made f path ⟨made, []⟩).map fun u => .table u.origin u.entries
    | some (.value _) => none
    | some (.table origin entries) =>
      if made = .dotted ∧ origin = .header then none
      else (within made f path ⟨origin, entries⟩).map fun u => .table u.origin u.entries
    | some (.tables items) => do
      let last ← items.getLast?
      let u ← within made f path ⟨.header, last⟩
      some (.tables (items.dropLast ++ [u.entries]))

/-- Add a value under a key that stands for nothing yet. -/
def add (key : String) (d : Document) (t : Table) : Option Table :=
  t.alter key fun
    | none => some (.value d)
    | some _ => none

/-- Whether a key may be assigned: a table that dotted keys have made takes dotted keys only, every
other table takes direct keys only. -/
def takes (direct : Bool) (t : Table) : Bool := direct != (t.origin == .dotted)

def assign (path : List String) (key : String) (d : Document) (t : Table) : Option Table :=
  within .dotted (fun u => if u.takes path.isEmpty then u.add key d else none) path t

/-- Declare the table `key`. It may have been passed before, and then goes to the end. -/
def declareHere (key : String) (t : Table) : Option Table :=
  match t.entries.lookup key with
  | none => some { t with entries := t.entries ++ [(key, .table .header [])] }
  | some (.table .passing entries) =>
    some { t with entries := t.entries.filter (·.1 ≠ key) ++ [(key, .table .header entries)] }
  | some _ => none

def declare (path : List String) (key : String) (t : Table) : Option Table :=
  within .passing (declareHere key) path t

/-- One more table for the list `key`. -/
def extendHere (key : String) (t : Table) : Option Table :=
  t.alter key fun
    | none => some (.tables [[]])
    | some (.tables items) => some (.tables (items ++ [[]]))
    | some _ => none

def extend (path : List String) (key : String) (t : Table) : Option Table :=
  within .passing (extendHere key) path t

end Table

mutual

/-- What a node says. `closed` tells whether its tables are written in one piece. -/
def Node.document (closed : Bool) : Node → Document
  | .value d => d
  | .table _ entries => .table closed (documentEntries closed entries)
  | .tables items => .list (documentTables closed items)

def documentEntries (closed : Bool) : List (String × Node) → List (String × Document)
  | [] => []
  | (key, n) :: rest => (key, n.document closed) :: documentEntries closed rest

def documentTables (closed : Bool) : List (List (String × Node)) → List Document
  | [] => []
  | entries :: rest => .table closed (documentEntries closed entries) :: documentTables closed rest

end

/-- What a table says. -/
def Table.document (t : Table) (closed : Bool) : Document :=
  .table closed (documentEntries closed t.entries)

end Toml
end Text
end Oscilloscope
