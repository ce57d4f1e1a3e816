import Oscilloscope.Decimation.Buckets

/-!
# Oscilloscope.Decimation.Triangle

Largest-triangle downsampling. The first and the last sample are always kept. The samples between
them fall into `target - 2` buckets, and each bucket contributes the sample that spans the largest
triangle with the sample kept before it and the average of the bucket after it.

* `innerRange` are the indices of one inner bucket. Its ends are products of a rounded quotient.
* `anchor` is the point that stands for the bucket after the current one.
* `largestCorner` picks a sample: the first of the largest triangles wins.
* `triangle` is the whole reduction.
-/

namespace Oscilloscope
namespace Decimation

/-- A sample in the plane: its index and its value. -/
structure Point where
  x : Float
  y : Float

/-- The sample at index `i` as a point. -/
def pointAt (samples : Array Sample) (i : Nat) : Point :=
  ⟨Float.ofNat i, (samples.getD i 0).toFloat⟩

/-- The whole part of a double that is not negative. -/
def wholePart (v : Float) : Nat := v.toUInt64.toNat

def innerRange (n inner bucket : Nat) : IndexRange :=
  let width := Float.ofNat (n - 2) / Float.ofNat inner
  ⟨1 + wholePart (Float.ofNat bucket * width),
   min (1 + wholePart (Float.ofNat (bucket + 1) * width)) (n - 1)⟩

/-- The average of the samples at the indices of `r`, in the plane. An empty range stands at the
sample where it starts. -/
def centroid (samples : Array Sample) (r : IndexRange) : Point :=
  if r.stop ≤ r.start then
    ⟨Float.ofNat r.start, (samples.getD (min r.start (samples.size - 1)) 0).toFloat⟩
  else
    let count := Float.ofNat r.length
    let sumX := r.indices.foldl (fun a i => a + Float.ofNat i) 0.0
    let sumY := (r.of samples).foldl (fun a s => a + s.toFloat) 0.0
    ⟨sumX / count, sumY / count⟩

/-- What stands for the bucket after `bucket`: its average, or the last sample after the last. -/
def anchor (samples : Array Sample) (inner bucket : Nat) : Point :=
  if bucket + 1 < inner then centroid samples (innerRange samples.size inner (bucket + 1))
  else pointAt samples (samples.size - 1)

/-- Twice the area of a triangle. -/
def doubledArea (a b c : Point) : Float :=
  (a.x * (b.y - c.y) + b.x * (c.y - a.y) + c.x * (a.y - b.y)).abs

/-- The index in `r` whose sample spans the largest triangle with `before` and `after`, the first
of equals; the start of `r` if `r` is empty. -/
def largestCorner (samples : Array Sample) (before after : Point) (r : IndexRange) : Nat :=
  (r.indices.foldl (fun best i =>
    let area := doubledArea before (pointAt samples i) after
    if best.2 < area then (i, area) else best) (r.start, -1.0)).1

/-- The samples kept by the inner buckets from `bucket` on, `count` of them. -/
def innerCorners (samples : Array Sample) (inner : Nat) : Nat → Nat → Point → List Sample
  | 0, _, _ => []
  | count + 1, bucket, before =>
    let i := largestCorner samples before (anchor samples inner bucket)
      (innerRange samples.size inner bucket)
    samples.getD i 0 :: innerCorners samples inner count (bucket + 1) (pointAt samples i)

/-- Reduce `samples` to `target` of them. At most `target` samples are kept as they are. -/
def triangle (samples : List Sample) (target : Nat) : List Sample :=
  if samples.length ≤ target then samples
  else
    let a := samples.toArray
    let first := a.getD 0 0
    let last := a.getD (a.size - 1) 0
    match target with
    | 0 => []
    | 1 => [first]
    | 2 => [first, last]
    | inner + 2 => first :: innerCorners a inner inner 0 (pointAt a 0) ++ [last]

end Decimation
end Oscilloscope
