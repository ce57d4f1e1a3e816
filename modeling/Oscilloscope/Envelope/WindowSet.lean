import Oscilloscope.Sample

/-!
# Oscilloscope.Envelope.WindowSet

The extremes that a window of fixed length can have over a periodic signal.

* `packPair lo hi` is one key for a pair of extremes. Keys are ordered like the pairs: by the
  smaller sample, then by the larger.
* `windowSet period window` are the keys of all windows of `window` samples over the endless
  repetition of `period`, ascending and without repetition. A window at least as long as the
  period sees the whole of it. For shorter ones a pass over the extended period keeps two lists of
  candidate indices, one for the smallest and one for the largest sample, so that the cost is
  linear in the length of the period.
-/

namespace Oscilloscope
namespace Envelope

/-- A sample as an unsigned word in the same order. -/
def biased (s : Sample) : UInt32 := (s.toUInt16 ^^^ 0x8000).toUInt32

/-- The key of a pair of extremes: the smaller in the high half, the larger in the low one. -/
def packPair (lo hi : Sample) : UInt32 := (biased lo <<< 16) ||| biased hi

/-- The sample at index `i` of the endless repetition of `period`. -/
def cyclic (period : Array Sample) (i : Nat) : Sample := period.getD (i % period.size) 0

/-- Candidate indices for the extreme of the windows to come, newest first. `beaten old new` says
that an older sample can no longer be the extreme once `new` is in the window. -/
structure Candidates where
  newestFirst : List Nat

namespace Candidates

/-- Take in index `i`: older candidates that it beats go, then the oldest one goes if it has left
the window that ends at `i`. -/
def push (period : Array Sample) (window : Nat) (beaten : Sample → Sample → Bool)
    (c : Candidates) (i : Nat) : Candidates :=
  let kept := i :: c.newestFirst.dropWhile fun j => beaten (cyclic period j) (cyclic period i)
  ⟨match kept.getLast? with
    | some oldest => if oldest + window ≤ i then kept.dropLast else kept
    | none => kept⟩

/-- The index of the extreme of the current window. -/
def front? (c : Candidates) : Option Nat := c.newestFirst.getLast?

end Candidates

/-- One pass over the indices `i, i + 1, …`, `count` of them: the keys of the windows that end
there, in that order. Windows that would start before index 0 give none. -/
def slide (period : Array Sample) (window : Nat) :
    Nat → Nat → Candidates → Candidates → List UInt32
  | 0, _, _, _ => []
  | count + 1, i, mins, maxs =>
    let mins := mins.push period window (fun old new => decide (new ≤ old)) i
    let maxs := maxs.push period window (fun old new => decide (old ≤ new)) i
    let rest := slide period window count (i + 1) mins maxs
    match mins.front?, maxs.front? with
    | some lo, some hi =>
      if window ≤ i + 1 then packPair (cyclic period lo) (cyclic period hi) :: rest else rest
    | _, _ => rest

/-- Drop every element of a sorted list that equals the one before it. -/
def dropRepeats : List UInt32 → List UInt32
  | [] => []
  | [k] => [k]
  | k :: l :: rest => if k = l then dropRepeats (l :: rest) else k :: dropRepeats (l :: rest)

/-- The smallest and largest sample of a signal, `0` for an empty one. -/
def wholeExtremes (period : List Sample) : Sample × Sample :=
  match period with
  | [] => (0, 0)
  | s :: rest => (rest.foldl min s, rest.foldl max s)

/-- The keys of all windows of `window` samples over the repetition of `period`. -/
def windowSet (period : List Sample) (window : Nat) : List UInt32 :=
  if window = 0 ∨ period = [] then []
  else if period.length ≤ window then
    let e := wholeExtremes period
    [packPair e.1 e.2]
  else
    let keys := slide period.toArray window (period.length + window - 1) 0 ⟨[]⟩ ⟨[]⟩
    dropRepeats (keys.mergeSort fun a b => decide (a ≤ b))

end Envelope
end Oscilloscope
