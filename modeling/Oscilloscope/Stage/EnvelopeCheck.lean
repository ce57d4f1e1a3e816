import Oscilloscope.Envelope.Verifier
import Oscilloscope.Stage

/-!
# Oscilloscope.Stage.EnvelopeCheck

The stage that checks bucket extremes of a known periodic signal and hands every frame on
unchanged. Only a frame with one pair per bucket is checked; others are counted as skipped. A call
breaks off where the check of its frame aborts.
-/

namespace Oscilloscope

/-- The running totals of a check. -/
structure CheckTotals where
  checked : UInt64 := 0
  skipped : UInt64 := 0
  total : UInt64 := 0
  matched : UInt64 := 0

/-- Matched over all pairs, `-1` before anything has been checked. -/
def CheckTotals.rate (t : CheckTotals) : Float :=
  if t.total = 0 then -1.0 else Float.ofNat t.matched.toNat / Float.ofNat t.total.toNat

/-- A check of frames that come from `raw` samples per channel in `buckets` buckets. -/
structure EnvelopeCheck where
  verifier : Envelope.Verifier
  raw : Nat
  buckets : Nat
  totals : CheckTotals := {}

namespace EnvelopeCheck

def name : String := "EnvelopeCheck"

def new (verifier : Envelope.Verifier) (period : List Sample) (raw buckets : Nat) :
    EnvelopeCheck :=
  { verifier := verifier.setPeriod period, raw, buckets }

def record (t : CheckTotals) (r : Envelope.Report) : CheckTotals :=
  if r.isSkipped then t
  else { t with total := t.total + UInt64.ofNat r.total,
                matched := t.matched + UInt64.ofNat r.matched }

/-- Check one channel of a frame. -/
def checkChannel (c : EnvelopeCheck) (samples : List Sample) : Option EnvelopeCheck :=
  (c.verifier.verify samples c.buckets c.raw).map fun p =>
    { c with verifier := p.2, totals := record c.totals p.1 }

/-- Check the channels of a frame, one after the other. -/
def checkChannels (c : EnvelopeCheck) (f : Frame) : Option EnvelopeCheck :=
  (List.range f.channels.toNat).foldlM (fun c channel =>
    match f.channel? channel with
    | some samples => c.checkChannel samples
    | none => some c) c

/-- A frame of another shape. -/
def skip (c : EnvelopeCheck) : EnvelopeCheck :=
  { c with totals := { c.totals with skipped := c.totals.skipped + 1 } }

/-- Check every channel of a frame of the right shape. -/
def check (c : EnvelopeCheck) (f : Frame) : Option EnvelopeCheck :=
  if c.buckets = 0 then some c.skip
  else do
    let length ← index? (c.buckets * 2)
    if f.samplesPerChannel.toNat ≠ length then some c.skip
    else do
      let c ← c.checkChannels f
      some { c with totals := { c.totals with checked := c.totals.checked + 1 } }

def process (c : EnvelopeCheck) (batch : List Frame) : Attempt (Processed EnvelopeCheck) :=
  match batch with
  | [] => .returned ⟨c, .noData, [], []⟩
  | f :: left =>
    match c.check f with
    | some c => .returned ⟨c, .ok, left, [f.materialize]⟩
    | none => .panicked

end EnvelopeCheck

end Oscilloscope
