import Oscilloscope.Index
import Oscilloscope.Sample

/-!
# Oscilloscope.Decimation.Buckets

Equal-width buckets and their extremes.

* `bucketRange b n k` are the indices of bucket `b` when `n` samples fall into `k` buckets. The
  ranges of the buckets `0` to `k - 1` tile the indices below `n`, and two of them differ by at
  most one in length.
* `minMax samples k` gives the smallest and then the largest sample of each bucket, so no spike is
  skipped. With fewer samples than buckets there is nothing to reduce and the samples are kept.
-/

namespace Oscilloscope
namespace Decimation

/-- The indices from `start` up to, not including, `stop`. -/
structure IndexRange where
  start : Nat
  stop : Nat
deriving DecidableEq, Repr

namespace IndexRange

def length (r : IndexRange) : Nat := r.stop - r.start

def indices (r : IndexRange) : List Nat := List.range' r.start r.length

/-- The samples at the indices of `r`. -/
def of (r : IndexRange) (samples : Array Sample) : List Sample :=
  (samples.extract r.start r.stop).toList

end IndexRange

/-- Bucket `bucket` of `buckets` over `n` samples. The products are exact; their quotients are cut
to an index word, which changes nothing for a bucket that exists. -/
def bucketRange (bucket n buckets : Nat) : IndexRange :=
  if buckets = 0 then ⟨0, 0⟩
  else ⟨bucket * n / buckets % indexLimit, (bucket + 1) * n / buckets % indexLimit⟩

/-- The smallest and the largest of some samples. The start values are the largest and the
smallest sample, so that the first sample replaces both. -/
def extremes (samples : List Sample) : Sample × Sample :=
  samples.foldl (fun e s => (min e.1 s, max e.2 s)) (Sample.highest, Sample.lowest)

/-- The extremes of one bucket, smallest first. -/
def bucketExtremes (samples : Array Sample) (buckets bucket : Nat) : List Sample :=
  let e := extremes ((bucketRange bucket samples.size buckets).of samples)
  [e.1, e.2]

/-- The extremes of every bucket. Without buckets there is no output; fewer samples than buckets
are kept as they are. -/
def minMax (samples : List Sample) (buckets : Nat) : List Sample :=
  if buckets = 0 then []
  else if samples.length < buckets then samples
  else (List.range buckets).flatMap (bucketExtremes samples.toArray buckets)

end Decimation
end Oscilloscope
