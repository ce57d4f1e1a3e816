/-!
# Oscilloscope.Wire.Transport

The two ends of a byte stream, as scripts of what the transport does.

* `ReadEvent` is one thing that a reader meets: bytes, an end of file, or a fault. A `Reader` is
  the sequence of events to come; after the last one every read meets an end of file.
* `Reader.fill` reads until a given number of bytes is there. An interrupted read is tried again;
  every other fault ends the attempt and keeps what has been read.
* `Writer` is what a writer does with each call; `Writer.writeAll` writes a byte string with as
  many calls as it takes.
-/

namespace Oscilloscope
namespace Wire

/-- What kind of fault a transport reports. -/
inductive Fault where
  /-- Nothing possible right now. -/
  | wouldBlock
  /-- The call was interrupted before it did anything. -/
  | interrupted
  | failed
deriving DecidableEq, Repr

inductive ReadEvent where
  | data (bytes : List UInt8)
  | endOfFile
  | fault (kind : Fault) (reason : String)
deriving DecidableEq

abbrev Reader := List ReadEvent

/-- How an attempt to read ends. -/
inductive FillOutcome where
  | complete
  | ended
  | fault (kind : Fault) (reason : String)
deriving DecidableEq

namespace Reader

/-- The bytes that are still to come. -/
def remaining : Reader → List UInt8
  | [] => []
  | .data bytes :: rest => bytes ++ remaining rest
  | _ :: rest => remaining rest

/-- Read until `need` bytes are there, from `got` on. The answer is how it ended, the bytes there
now, and the reader after it. -/
def fill (need : Nat) (got : List UInt8) : Reader → FillOutcome × List UInt8 × Reader
  | [] => if need ≤ got.length then (.complete, got, []) else (.ended, got, [])
  | event :: rest =>
    if need ≤ got.length then (.complete, got, event :: rest)
    else
      match event with
      | .data bytes =>
        let missing := need - got.length
        if missing < bytes.length then
          (.complete, got ++ bytes.take missing, .data (bytes.drop missing) :: rest)
        else fill need (got ++ bytes) rest
      | .endOfFile => (.ended, got, rest)
      | .fault .interrupted _ => fill need got rest
      | .fault kind reason => (.fault kind reason, got, rest)

/-- Reading neither loses nor invents bytes. -/
theorem fill_remaining (need : Nat) (got : List UInt8) (r : Reader) :
    (fill need got r).2.1 ++ remaining (fill need got r).2.2 = got ++ remaining r := by
  induction r generalizing got with
  | nil => simp only [fill]; split <;> rfl
  | cons event rest ih =>
    simp only [fill]
    split
    · rfl
    · cases event with
      | data bytes =>
        dsimp only
        split
        · simp [remaining, List.append_assoc, ← List.append_assoc (List.take _ bytes)]
        · rw [ih]; simp [remaining]
      | endOfFile => rfl
      | fault kind reason => cases kind <;> simp [remaining, ih]

/-- An attempt that completes has the bytes it needs. -/
theorem le_length_of_fill {need : Nat} {got : List UInt8} {r : Reader}
    (h : (fill need got r).1 = .complete) : need ≤ (fill need got r).2.1.length := by
  induction r generalizing got with
  | nil =>
    simp only [fill] at h ⊢
    split <;> simp_all
  | cons event rest ih =>
    simp only [fill] at h ⊢
    split
    · assumption
    · rw [if_neg (by assumption)] at h
      cases event with
      | data bytes =>
        dsimp only at h ⊢
        split
        · simp only [List.length_append, List.length_take]; omega
        · rw [if_neg (by assumption)] at h; exact ih h
      | endOfFile => cases h
      | fault kind reason =>
        cases kind
        · cases h
        · exact ih h
        · cases h

/-- Everything up to the next end of file, if the reader gets there without a fault; interrupted
reads are tried again. The second part is the reader after it. -/
def readToEnd (got : List UInt8) : Reader → Option (List UInt8) × Reader
  | [] => (some got, [])
  | .data bytes :: rest => readToEnd (got ++ bytes) rest
  | .endOfFile :: rest => (some got, rest)
  | .fault .interrupted _ :: rest => readToEnd got rest
  | .fault _ _ :: rest => (none, rest)

end Reader

/-- What a writer does: one entry per call of each kind, `none` for success. Without an entry the
call succeeds. -/
structure Writer where
  writes : List (Option Fault) := []
  flushes : List (Option Fault) := []
  /-- The most bytes that the next calls accept, one entry per call that succeeds; `0` for any
  number. -/
  sizes : List Nat := []
  /-- The most bytes that a call without an entry accepts; `0` for any number. -/
  limit : Nat := 0
  /-- The bytes accepted so far. -/
  accepted : List UInt8 := []

namespace Writer

/-- Accept the leading bytes of `bytes` in one call; the answer is the rest. -/
def accept (w : Writer) (bytes : List UInt8) : List UInt8 × Writer :=
  let most := w.sizes.headD w.limit
  let n := if most = 0 then bytes.length else min most bytes.length
  (bytes.drop n, { w with sizes := w.sizes.tail, accepted := w.accepted ++ bytes.take n })

theorem length_accept_lt (w : Writer) (b : UInt8) (bytes : List UInt8) :
    (w.accept (b :: bytes)).1.length < (b :: bytes).length := by
  simp only [accept, List.length_drop, List.length_cons]
  split <;> omega

/-- Write all of `bytes`. An interrupted call is made again; the first other fault ends it. -/
def writeAll (w : Writer) (bytes : List UInt8) : Option Fault × Writer :=
  match bytes with
  | [] => (none, w)
  | b :: rest =>
    match _script : w.writes with
    | some .interrupted :: writes => writeAll { w with writes } (b :: rest)
    | some fault :: writes => (some fault, { w with writes })
    | none :: writes =>
      let p := accept { w with writes } (b :: rest)
      writeAll p.2 p.1
    | [] =>
      let p := accept w (b :: rest)
      writeAll p.2 p.1
termination_by w.writes.length + bytes.length
decreasing_by
  · simp [_script]
  · have := length_accept_lt { w with writes } b rest
    simp only [_script, List.length_cons] at this ⊢
    simp only [accept] at this ⊢
    omega
  · have := length_accept_lt w b rest
    simp only [List.length_cons] at this ⊢
    simp only [accept] at this ⊢
    omega

/-- Pass on what is buffered. -/
def flush (w : Writer) : Option Fault × Writer :=
  match w.flushes with
  | [] => (none, w)
  | outcome :: flushes => (outcome, { w with flushes })

end Writer

end Wire
end Oscilloscope
