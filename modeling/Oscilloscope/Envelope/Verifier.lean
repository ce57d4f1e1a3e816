import Oscilloscope.Envelope.WindowSet
import Oscilloscope.Index

/-!
# Oscilloscope.Envelope.Verifier

The check of bucket extremes against a known periodic signal.

Splitting `n` samples into `k` buckets gives buckets of `n / k` or `n / k + 1` samples. A pair of
extremes is plausible if some window of one of these two lengths has extremes within the tolerance
of it.

* `Verifier` holds the period, the tolerance and the window sets built so far.
* `Verifier.verify` counts the plausible pairs and remembers the two window sets that it used. It
  aborts where twice the buckets or the longer window is no index.
* `Report` is the outcome; nothing can be said without a period, buckets, samples or enough pairs.
-/

namespace Oscilloscope
namespace Envelope

structure Report where
  total : Nat
  matched : Nat
  /-- Matched pairs over all pairs, or `-1` if nothing could be checked. -/
  rate : Float

namespace Report

/-- Nothing could be checked. -/
def ofSkipped (total : Nat) : Report := ⟨total, 0, -1.0⟩

def ofCount (total matched : Nat) : Report :=
  ⟨total, matched, Float.ofNat matched / Float.ofNat total⟩

def isSkipped (r : Report) : Bool := r.rate < 0.0

end Report

/-- The check of one signal. `cache` holds window sets with their window lengths, ascending. -/
structure Verifier where
  period : List Sample
  tolerance : UInt16
  cache : List (Nat × Array UInt32)

/-- One step of the sample range in either direction is accepted by default. -/
def defaultTolerance : UInt16 := 1

/-- Whether `key` is in the ascending array `keys`, between the indices `low` and `high`. -/
def searchBetween (keys : Array UInt32) (key : UInt32) (low high : Nat) : Bool :=
  if _inside : low < high then
    let middle := (low + high) / 2
    match keys[middle]? with
    | none => false
    | some k =>
      if k = key then true
      else if k < key then searchBetween keys key (middle + 1) high
      else searchBetween keys key low middle
  else false
termination_by high - low

def search (keys : Array UInt32) (key : UInt32) : Bool := searchBetween keys key 0 keys.size

/-- The values from `-t` to `t`. -/
def shifts (t : UInt16) : List Int :=
  (List.range (2 * t.toNat + 1)).map fun (i : Nat) => (i : Int) - t.toNat

/-- The samples within the tolerance of `s`, ascending. Shifts that leave the sample range give
none. -/
def near (t : UInt16) (s : Sample) : List Sample :=
  (shifts t).filterMap fun d => Sample.ofInt? (s.toInt + d)

/-- Whether some pair within the tolerance of `lo` and `hi` is in one of the two sets. -/
def withinTolerance (t : UInt16) (shorter longer : Array UInt32) (lo hi : Sample) : Bool :=
  (near t lo).any fun l =>
    (near t hi).any fun h => search shorter (packPair l h) || search longer (packPair l h)

/-- The pairs of an interleaved list; an odd last element is in none. -/
def pairs : List Sample → List (Sample × Sample)
  | lo :: hi :: rest => (lo, hi) :: pairs rest
  | _ => []

/-- Insert into an ascending association list. -/
def insertSet (window : Nat) (keys : Array UInt32) :
    List (Nat × Array UInt32) → List (Nat × Array UInt32)
  | [] => [(window, keys)]
  | e :: rest =>
    if window < e.1 then (window, keys) :: e :: rest else e :: insertSet window keys rest

namespace Verifier

def withTolerance (t : UInt16) : Verifier := ⟨[], t, []⟩

def new : Verifier := withTolerance defaultTolerance

/-- Install one period of the signal; the window sets of another signal are dropped. -/
def setPeriod (v : Verifier) (period : List Sample) : Verifier := { v with period, cache := [] }

def clear (v : Verifier) : Verifier := v.setPeriod []

def isReady (v : Verifier) : Bool := !v.period.isEmpty

/-- The window lengths whose sets are known, ascending. -/
def cachedWindows (v : Verifier) : List Nat := v.cache.map (·.1)

/-- Make sure that the set for `window` is known. -/
def ensure (v : Verifier) (window : Nat) : Verifier :=
  if (v.cache.lookup window).isSome then v
  else { v with cache := insertSet window (windowSet v.period window).toArray v.cache }

/-- The known set for `window`, empty if there is none. -/
def keysFor (v : Verifier) (window : Nat) : Array UInt32 := (v.cache.lookup window).getD #[]

/-- Count the pairs of `decimated` among the first `buckets` that a window of `base` or of `next`
samples can have. -/
def count (v : Verifier) (decimated : List Sample) (buckets base next : Nat) : Report × Verifier :=
  let v := (v.ensure base).ensure next
  let shorter := v.keysFor base
  let longer := v.keysFor next
  let matched := ((pairs decimated).take buckets).countP fun p =>
    withinTolerance v.tolerance shorter longer p.1 p.2
  (.ofCount buckets matched, v)

/-- Check the pairs of `decimated`, the extremes of `buckets` buckets over `raw` samples. -/
def verify (v : Verifier) (decimated : List Sample) (buckets raw : Nat) :
    Option (Report × Verifier) :=
  if !v.isReady ∨ buckets = 0 ∨ raw = 0 then some (.ofSkipped buckets, v)
  else do
    let needed ← index? (buckets * 2)
    if decimated.length < needed then some (.ofSkipped buckets, v)
    else do
      let base := max (raw / buckets) 1
      let next ← index? (base + 1)
      some (v.count decimated buckets base next)

end Verifier

end Envelope
end Oscilloscope
