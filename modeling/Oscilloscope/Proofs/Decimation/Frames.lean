import Mathlib.Algebra.GroupWithZero.Nat
import Mathlib.Data.List.Basic
import Oscilloscope.Proofs.Decimation.Buckets
import Oscilloscope.Proofs.Frame.Channels
import Oscilloscope.Stage.Decimate

/-!
# Oscilloscope.Proofs.Decimation.Frames

A frame is reduced channel by channel.

* `length_decimate`: the length of a reduction is known from the length of its input, so that all
  channels of a frame come out equally long.
* `Decimator.decimateFrame_eq`: the channels of a reduced frame are the reduced channels.
* `Decimator.decimateFrame_minMax`: the same for bucket extremes, whatever the rate of the frame.
-/

namespace Oscilloscope

namespace Decimation

theorem decimateOnto_eq (existing samples : List Sample) (mode : Mode) (target : Nat) :
    decimateOnto existing samples mode target = existing ++ decimate samples mode target := by
  cases mode with
  | passthrough => rfl
  | minMax => rfl
  | triangle => rfl

theorem length_innerCorners (samples : Array Sample) (inner count bucket : Nat) (before : Point) :
    (innerCorners samples inner count bucket before).length = count := by
  induction count generalizing bucket before with
  | zero => rfl
  | succ count ih => rw [innerCorners, List.length_cons, ih]

theorem length_triangle (samples : List Sample) (target : Nat) :
    (triangle samples target).length =
      if samples.length ≤ target then samples.length else target := by
  unfold triangle
  split
  · rfl
  · split
    · rfl
    · rfl
    · rfl
    · rw [List.length_append, List.length_cons, length_innerCorners]
      rfl

/-- The length of a reduction, as long as twice the input can be counted. -/
theorem length_decimate (samples : List Sample) (mode : Mode) (target : Nat)
    (hn : 2 * samples.length < indexLimit) :
    outputLength? samples.length mode target = some (decimate samples mode target).length := by
  cases mode with
  | passthrough => rfl
  | triangle =>
    have hlength : (decimate samples .triangle target).length = _ := length_triangle samples target
    rw [outputLength?, hlength, apply_ite some]
  | minMax =>
    have hlength : (decimate samples .minMax target).length = (minMax samples target).length := rfl
    rw [outputLength?, hlength]
    by_cases hzero : target = 0
    · rw [minMax, if_pos hzero, if_pos hzero]
      rfl
    · by_cases hlt : samples.length < target
      · rw [minMax, if_neg hzero, if_pos hlt, if_neg hzero, if_pos hlt]
      · rw [if_neg hzero, if_neg hlt, length_minMax (by omega) (by omega), index?_of_lt (by omega)]

theorem outputLength?_le {n length : Nat} {mode : Mode} {target : Nat}
    (h : outputLength? n mode target = some length) : length ≤ 2 * n := by
  cases mode with
  | passthrough => grind [outputLength?]
  | minMax => grind [outputLength?, index?]
  | triangle => grind [outputLength?]

end Decimation

namespace Decimator

open Decimation

/-- The reduced channels of a frame. -/
def channelsOf (f : Frame) (mode : Mode) (target : Nat) : List (List Sample) :=
  (List.range f.channels.toNat).map fun channel => decimate (f.samplesOf channel) mode target

theorem reduceChannels_eq (f : Frame) (mode : Mode) (target : Nat) :
    reduceChannels f mode target = (channelsOf f mode target).flatten := by
  have hstep : reduceChannels f mode target = (List.range f.channels.toNat).foldl
      (fun out channel => out ++ decimate (f.samplesOf channel) mode target) [] := by
    apply List.foldl_ext
    intro out channel hmem
    rw [f.channel_eq (List.mem_range.mp hmem)]
    exact decimateOnto_eq _ _ _ _
  rw [hstep, List.foldl_append_eq_append]
  exact List.nil_append _

/-- How many samples per channel are left of a frame. -/
def reducedLength (f : Frame) (mode : Mode) (target : Nat) : Nat :=
  if f.channels = 0 then 0 else (outputLength? f.samplesPerChannel.toNat mode target).getD 0

theorem reducedLength_le (f : Frame) (mode : Mode) (target : Nat) :
    reducedLength f mode target ≤ 2 * f.samplesPerChannel.toNat := by
  unfold reducedLength
  split
  · exact Nat.zero_le _
  · cases hlength : outputLength? f.samplesPerChannel.toNat mode target with
    | none => exact Nat.zero_le _
    | some length => exact outputLength?_le hlength

/-- The length of a frame is a word, so that the length of its reduction is an index. -/
theorem outputLength?_frame {f : Frame} (hsome : f.channels ≠ 0) (mode : Mode) (target : Nat) :
    outputLength? f.samplesPerChannel.toNat mode target = some (reducedLength f mode target) := by
  have hword : f.samplesPerChannel.toNat < 4294967296 := f.samplesPerChannel.toNat_lt
  have hlimit : indexLimit = 18446744073709551616 := rfl
  have hlength := length_decimate (.replicate f.samplesPerChannel.toNat 0) mode target
    (by rw [List.length_replicate]; omega)
  rw [List.length_replicate] at hlength
  rw [reducedLength, if_neg hsome, hlength, Option.getD_some]

theorem length_of_mem_channelsOf {f : Frame} (mode : Mode) (target : Nat) {part : List Sample}
    (hpart : part ∈ channelsOf f mode target) : part.length = reducedLength f mode target := by
  obtain ⟨channel, hmem, rfl⟩ := List.mem_map.mp hpart
  have hchannel := List.mem_range.mp hmem
  have hsome : f.channels ≠ 0 := by
    rintro hzero
    rw [hzero] at hchannel
    exact absurd hchannel (Nat.not_lt_zero _)
  have hlen := f.length_samplesOf hchannel
  have hword : f.samplesPerChannel.toNat < 4294967296 := f.samplesPerChannel.toNat_lt
  have hlimit : indexLimit = 18446744073709551616 := rfl
  have hlength := length_decimate (f.samplesOf channel) mode target (by omega)
  rw [hlen, outputLength?_frame hsome] at hlength
  exact (Option.some.inj hlength).symm

theorem reducedLength_lt {f : Frame} (hsmall : f.samplesPerChannel.toNat < 2147483648) (mode : Mode)
    (target : Nat) : reducedLength f mode target < UInt32.size := by
  have hle := reducedLength_le f mode target
  have hsize : UInt32.size = 4294967296 := rfl
  omega

theorem length_flatten_channelsOf (f : Frame) (mode : Mode) (target : Nat) :
    (channelsOf f mode target).flatten.length =
      f.channels.toNat * reducedLength f mode target := by
  have hall : ∀ part ∈ channelsOf f mode target, part.length = reducedLength f mode target :=
    fun part => length_of_mem_channelsOf mode target
  rw [List.length_flatten, List.map_congr_left hall, List.map_const', List.sum_replicate_nat,
    channelsOf, List.length_map, List.length_range]

theorem length_reduceChannels (f : Frame) (mode : Mode) (target : Nat) :
    (if f.channels = 0 then 0
      else (reduceChannels f mode target).length / f.channels.toNat) =
      reducedLength f mode target := by
  by_cases hzero : f.channels = 0
  · rw [reducedLength, if_pos hzero, if_pos hzero]
  · have hpos : 0 < f.channels.toNat :=
      Nat.pos_of_ne_zero fun h => hzero (UInt32.toNat_inj.mp h)
    rw [if_neg hzero, reduceChannels_eq, length_flatten_channelsOf, Nat.mul_div_cancel_left _ hpos]

/-- A reduced frame holds the reduced channels, as long as their length is a word. -/
theorem decimateFrame_of_lt (d : Decimator) {f : Frame}
    (hlt : reducedLength f (d.mode.effective (d.rateFor f).toFloat) d.target < UInt32.size) :
    let g := (d.decimateFrame f).1
    let mode := d.mode.effective (d.rateFor f).toFloat
    g.channels = f.channels ∧
      g.samplesPerChannel = UInt32.ofNat (reducedLength f mode d.target) ∧
      ∀ channel, g.channel? channel = (channelsOf f mode d.target)[channel]? := by
  intro g mode
  have hcount : (channelsOf f mode d.target).length = f.channels.toNat := by
    rw [channelsOf, List.length_map, List.length_range]
  obtain ⟨reduced, hok, hchannels, hlength, hchannel⟩ := Frame.ofSamples?_flatten hcount
    (fun part => length_of_mem_channelsOf mode d.target) hlt
  rw [← reduceChannels_eq, ← length_reduceChannels] at hok
  have hg : g = { reduced with
      sequence := f.sequence, timestamp := f.timestamp, firstIndex := f.firstIndex,
      flags := f.flags, rate := g.rate } := by
    simp only [g, mode, decimateFrame] at hok ⊢
    rw [hok]
  rw [hg]
  exact ⟨hchannels, hlength, hchannel⟩

/-- If their length is no word, the frame comes out empty. -/
theorem decimateFrame_of_le (d : Decimator) {f : Frame} (hchannels : f.channels ≠ 0)
    (hle : UInt32.size ≤ reducedLength f (d.mode.effective (d.rateFor f).toFloat) d.target) :
    (d.decimateFrame f).1.samplesPerChannel = 0 := by
  generalize hmode : d.mode.effective (d.rateFor f).toFloat = mode at hle
  have hpos : 0 < f.channels.toNat :=
    Nat.pos_of_ne_zero fun h => hchannels (UInt32.toNat_inj.mp h)
  have hmisfit : ¬(reduceChannels f mode d.target).length =
      f.channels.toNat * (UInt32.ofNat (reducedLength f mode d.target)).toNat := by
    rw [reduceChannels_eq, length_flatten_channelsOf]
    intro heq
    have hsame := Nat.eq_of_mul_eq_mul_left hpos heq
    have hword := (UInt32.ofNat (reducedLength f mode d.target)).toNat_lt
    have hsize : UInt32.size = 4294967296 := rfl
    omega
  have herror : ∃ e, Frame.ofSamples? f.channels (UInt32.ofNat (reducedLength f mode d.target))
      (reduceChannels f mode d.target) = .error e := by
    unfold Frame.ofSamples? Frame.ofStorage?
    exact ⟨_, dif_neg hmisfit⟩
  obtain ⟨e, herror⟩ := herror
  rw [← length_reduceChannels] at herror
  simp only [decimateFrame, hmode, herror]
  rfl

/-- A reduced frame holds the reduced channels. -/
theorem decimateFrame_eq {f : Frame} (hsmall : f.samplesPerChannel.toNat < 2147483648)
    (d : Decimator) :
    let g := (d.decimateFrame f).1
    let mode := d.mode.effective (d.rateFor f).toFloat
    g.channels = f.channels ∧
      g.samplesPerChannel = UInt32.ofNat (reducedLength f mode d.target) ∧
      ∀ channel, g.channel? channel = (channelsOf f mode d.target)[channel]? :=
  d.decimateFrame_of_lt (reducedLength_lt hsmall _ _)

/-! ### Bucket extremes -/

section MinMax

variable {d : Decimator} {f : Frame} {buckets : Nat}

theorem reducedLength_minMax (hchannels : f.channels ≠ 0) (hpos : 0 < buckets)
    (hsmall : buckets < 2 ^ 32) : reducedLength f .minMax buckets =
      if f.samplesPerChannel.toNat < buckets then f.samplesPerChannel.toNat else 2 * buckets := by
  have hlimit : indexLimit = 18446744073709551616 := rfl
  rw [reducedLength, if_neg hchannels, outputLength?, if_neg (by omega), index?_of_lt (by omega),
    ← apply_ite some, Option.getD_some]

theorem effective_minMax (hmode : d.mode = .minMax) (rate : Float) :
    d.mode.effective rate = .minMax := by
  rw [hmode, Mode.effective, if_neg (by simp)]

/-- A frame with fewer samples than buckets keeps its length. -/
theorem decimateFrame_short (hmode : d.mode = .minMax) (hchannels : f.channels ≠ 0)
    (hsmall : d.target < 2 ^ 32) (hshort : f.samplesPerChannel.toNat < d.target) :
    (d.decimateFrame f).1.samplesPerChannel = f.samplesPerChannel := by
  have hreduced := reducedLength_minMax hchannels (by omega) hsmall
  rw [if_pos hshort] at hreduced
  have hword := f.samplesPerChannel.toNat_lt
  obtain ⟨-, hlength, -⟩ := d.decimateFrame_of_lt (f := f)
    (by rw [effective_minMax hmode, hreduced]; exact hword)
  rw [hlength, effective_minMax hmode, hreduced, UInt32.ofNat_toNat]

/-- A frame with a sample for each bucket becomes a frame of the extremes. -/
theorem decimateFrame_minMax (hmode : d.mode = .minMax) (hchannels : f.channels ≠ 0)
    (hpos : 0 < d.target) (henough : d.target ≤ f.samplesPerChannel.toNat)
    (hwide : 2 * d.target < 2 ^ 32) :
    (d.decimateFrame f).1.channels = f.channels ∧
      (d.decimateFrame f).1.samplesPerChannel.toNat = 2 * d.target ∧
      ∀ channel < f.channels.toNat, (d.decimateFrame f).1.channel? channel =
        some (minMax (f.samplesOf channel) d.target) := by
  have hreduced := reducedLength_minMax hchannels hpos (by omega)
  rw [if_neg (by omega)] at hreduced
  have hsize : UInt32.size = 4294967296 := rfl
  obtain ⟨hsame, hlength, hchannel⟩ := d.decimateFrame_of_lt (f := f)
    (by rw [effective_minMax hmode, hreduced]; omega)
  rw [effective_minMax hmode, hreduced] at hlength
  refine ⟨hsame, ?_, fun channel hlt => ?_⟩
  · rw [hlength, UInt32.toNat_ofNat_of_lt' (by omega)]
  · rw [hchannel, effective_minMax hmode, channelsOf, List.getElem?_map, List.getElem?_range hlt,
      Option.map_some]
    rfl

/-- It comes out empty if twice the buckets are no word. -/
theorem decimateFrame_wide (hmode : d.mode = .minMax) (hchannels : f.channels ≠ 0)
    (hpos : 0 < d.target) (henough : d.target ≤ f.samplesPerChannel.toNat)
    (hwide : 2 ^ 32 ≤ 2 * d.target) : (d.decimateFrame f).1.samplesPerChannel = 0 := by
  have hword := f.samplesPerChannel.toNat_lt
  have hreduced := reducedLength_minMax hchannels hpos (by omega)
  rw [if_neg (by omega)] at hreduced
  have hsize : UInt32.size = 4294967296 := rfl
  apply d.decimateFrame_of_le hchannels
  rw [effective_minMax hmode, hreduced]
  omega

end MinMax

end Decimator

end Oscilloscope
