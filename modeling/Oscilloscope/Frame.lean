import Oscilloscope.Double
import Oscilloscope.Sample

/-!
# Oscilloscope.Frame

The unit of data that flows through the pipeline: one block of samples for all channels, channel
after channel, with its metadata.

* `Buffer` is a block as a source delivers it; its shape is not checked.
* `Frame` is a block whose sample count fits its shape. It owns its samples or borrows them from
  memory that must be given back; `Loan` names one such debt.
* `Frame.ofSamples?` and `Frame.ofBuffer?` check a shape, `Frame.ofLoan` borrows.
* `Frame.materialize` turns a borrowed frame into an owned one, `Frame.loans` are its debts.
* `Frame.modify?` changes a sample; only an owned frame allows that.
-/

namespace Oscilloscope

structure Buffer where
  sequence : UInt64 := 0
  timestamp : UInt64 := 0
  channels : UInt32 := 0
  samplesPerChannel : UInt32 := 0
  samples : List Sample := []
deriving DecidableEq

/-- The samples of channel `channel` in a block, if there is such a channel and the block holds it
completely. -/
def channelOf (samples : List Sample) (channels samplesPerChannel : UInt32) (channel : Nat) :
    Option (List Sample) :=
  let n := samplesPerChannel.toNat
  if channel < channels.toNat ∧ (channel + 1) * n ≤ samples.length then
    some ((samples.drop (channel * n)).take n)
  else none

def Buffer.channel? (b : Buffer) (channel : Nat) : Option (List Sample) :=
  channelOf b.samples b.channels b.samplesPerChannel channel

abbrev Loan := Nat

/-- Where the samples of a frame live. -/
inductive Storage where
  | owned (samples : List Sample)
  | borrowed (loan : Loan) (samples : List Sample)
deriving DecidableEq

namespace Storage

def samples : Storage → List Sample
  | owned s => s
  | borrowed _ s => s

def loans : Storage → List Loan
  | owned _ => []
  | borrowed l _ => [l]

def isBorrowed : Storage → Bool
  | owned _ => false
  | borrowed _ _ => true

end Storage

structure Frame where
  sequence : UInt64 := 0
  timestamp : UInt64 := 0
  channels : UInt32
  samplesPerChannel : UInt32
  /-- Samples per second and channel; `0` if unknown. -/
  rate : Double := .zero
  /-- The position of the first sample in the stream of the source. -/
  firstIndex : UInt64 := 0
  flags : UInt32 := 0
  storage : Storage
  fits : storage.samples.length = channels.toNat * samplesPerChannel.toNat

/-- Why an operation on a frame fails. -/
inductive FrameError where
  | borrowedMutation
  | layoutMismatch (expected actual : Nat)
deriving DecidableEq, Repr

def FrameError.message : FrameError → String
  | borrowedMutation =>
    "Borrowed frame cannot be mutated in place; materialize an owned copy first"
  | layoutMismatch expected actual =>
    s!"Frame layout mismatch: expected {expected} samples, got {actual}"

namespace Frame

/-- The flag of a frame that follows a gap in the numbering of its source. -/
def discontinuity : UInt32 := 1

/-- The frame of the given shape over `storage`, if the count fits; all metadata are zero. -/
def ofStorage? (channels samplesPerChannel : UInt32) (storage : Storage) :
    Except FrameError Frame :=
  if fits : storage.samples.length = channels.toNat * samplesPerChannel.toNat then
    .ok { channels, samplesPerChannel, storage, fits }
  else
    .error (.layoutMismatch (channels.toNat * samplesPerChannel.toNat) storage.samples.length)

def ofSamples? (channels samplesPerChannel : UInt32) (samples : List Sample) :
    Except FrameError Frame :=
  ofStorage? channels samplesPerChannel (.owned samples)

/-- An owned frame of zeros. -/
def zeros (channels samplesPerChannel : UInt32) : Frame where
  channels
  samplesPerChannel
  storage := .owned (List.replicate (channels.toNat * samplesPerChannel.toNat) 0)
  fits := by simp [Storage.samples]

def ofBuffer? (b : Buffer) (rate : Double) (firstIndex : UInt64) : Except FrameError Frame :=
  (ofSamples? b.channels b.samplesPerChannel b.samples).map fun f =>
    { f with sequence := b.sequence, timestamp := b.timestamp, rate, firstIndex }

/-- All samples, channel after channel. -/
def samples (f : Frame) : List Sample := f.storage.samples

def isBorrowed (f : Frame) : Bool := f.storage.isBorrowed

def loans (f : Frame) : List Loan := f.storage.loans

def channel? (f : Frame) (channel : Nat) : Option (List Sample) :=
  channelOf f.samples f.channels f.samplesPerChannel channel

/-- Seconds covered by one channel; `0` if the rate is unknown. -/
def duration (f : Frame) : Float :=
  if f.rate.isPositive then Float.ofNat f.samplesPerChannel.toNat / f.rate.toFloat else 0.0

def materialize (f : Frame) : Frame := { f with storage := .owned f.samples, fits := f.fits }

/-- Change the sample at index `i`, which fails on a borrowed frame. `none` if there is no such
sample. -/
def modify? (f : Frame) (i : Nat) (s : Sample) : Except FrameError (Option Frame) :=
  match h : f.storage with
  | .borrowed _ _ => .error .borrowedMutation
  | .owned samples =>
    if i < samples.length then
      .ok (some { f with
        storage := .owned (samples.set i s)
        fits := by have := f.fits; rw [h] at this; simpa [Storage.samples] using this })
    else .ok none

/-- The block of a frame, as a source would deliver it. -/
def toBuffer (f : Frame) : Buffer :=
  ⟨f.sequence, f.timestamp, f.channels, f.samplesPerChannel, f.samples⟩

/-- A frame over lent memory. The memory is read for exactly the samples of the shape. -/
def ofLoan (channels samplesPerChannel : UInt32) (loan : Loan) (memory : Nat → Sample) :
    Frame where
  channels
  samplesPerChannel
  storage := .borrowed loan
    ((List.range (channels.toNat * samplesPerChannel.toNat)).map memory)
  fits := by simp [Storage.samples]

end Frame

end Oscilloscope
