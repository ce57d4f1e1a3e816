import Oscilloscope.Proofs.Decimation.Frames
import Oscilloscope.Proofs.Decimation.Levels

/-!
# Oscilloscope.Proofs.Decimation.Laws

The laws that all three algorithms obey, and what they give for a frame.

* `decimate_laws`: a reduction goes behind what is there already, has the length that is computed
  for it in advance, and is left alone by the same reduction.
* `Decimator.decimateFrame_channelwise`: since the length does not depend on the samples, the
  channels of a reduced frame are the reduced channels, and the shape of the frame is never refused.
-/

namespace Oscilloscope

namespace Decimation

variable {samples : List Sample} {target : Nat}

/-! ## One channel -/

theorem minMax_of_length_lt (hlt : samples.length < target) : minMax samples target = samples := by
  rw [minMax, if_neg (by omega), if_pos hlt]

theorem minMax_repeated (hn : 2 * samples.length < indexLimit) :
    minMax (minMax samples target) target = minMax samples target := by
  rcases Nat.eq_zero_or_pos target with rfl | hpos
  · rfl
  · by_cases hlt : samples.length < target
    · rw [minMax_of_length_lt hlt, minMax_of_length_lt hlt]
    · have hlevels := minMax_minMax (k := 1) Nat.one_pos hpos (by omega) hn
      rwa [Nat.one_mul] at hlevels

theorem length_triangle_le (samples : List Sample) (target : Nat) :
    (triangle samples target).length ≤ target := by
  rw [length_triangle]
  split
  · assumption
  · exact Nat.le_refl target

theorem triangle_repeated (samples : List Sample) (target : Nat) :
    triangle (triangle samples target) target = triangle samples target :=
  if_pos (length_triangle_le samples target)

theorem decimate_repeated (mode : Mode) (hn : 2 * samples.length < indexLimit) :
    decimate (decimate samples mode target) mode target = decimate samples mode target := by
  cases mode with
  | passthrough => rfl
  | minMax => exact minMax_repeated hn
  | triangle => exact triangle_repeated samples target

/-- **A reduction.** For every list of samples that fits the address space, at two bytes a sample,
every algorithm and every target: the reduction is appended to what is there, its length is known
from the length of the input, and reducing it once more changes nothing. -/
theorem decimate_laws (existing samples : List Sample) (mode : Mode) (target : Nat)
    (hn : 2 * samples.length < indexLimit) :
    decimateOnto existing samples mode target = existing ++ decimate samples mode target ∧
      outputLength? samples.length mode target = some (decimate samples mode target).length ∧
      decimate (decimate samples mode target) mode target = decimate samples mode target :=
  ⟨decimateOnto_eq existing samples mode target, length_decimate samples mode target hn,
    decimate_repeated mode hn⟩

/-- Seven samples in three buckets, behind one that is there. -/
theorem decimate_laws_seven :
    decimateOnto [5] [4, -1, 0, 9, 2, -7, 3] .minMax 3 = 5 :: [-1, 4, 0, 9, -7, 3] ∧
      outputLength? 7 .minMax 3 = some 6 ∧
      decimate [-1, 4, 0, 9, -7, 3] .minMax 3 = [-1, 4, 0, 9, -7, 3] := by
  obtain ⟨honto, hlength, hrepeated⟩ :=
    decimate_laws [5] [4, -1, 0, 9, 2, -7, 3] .minMax 3 (by decide)
  have hreduced : decimate [4, -1, 0, 9, 2, -7, 3] .minMax 3 = [-1, 4, 0, 9, -7, 3] := by decide
  rw [hreduced] at honto hlength hrepeated
  exact ⟨honto, hlength, hrepeated⟩

end Decimation

namespace Decimator

open Decimation

/-! ## All channels -/

variable {f : Frame}

theorem getElem?_channelsOf (f : Frame) (mode : Mode) (target channel : Nat) :
    (channelsOf f mode target)[channel]? =
      (f.channel? channel).map fun samples => decimate samples mode target := by
  rw [channelsOf, List.getElem?_map]
  by_cases hlt : channel < f.channels.toNat
  · rw [List.getElem?_range hlt, f.channel_eq hlt]
    rfl
  · have hnone : f.channel? channel = none := by
      simp only [Frame.channel?, channelOf, hlt, false_and, if_false]
    rw [hnone, List.getElem?_eq_none (by rw [List.length_range]; omega)]
    rfl

/-- The reduced channels always have the shape that is computed from their number. -/
theorem ofSamples?_reduceChannels (hsmall : f.samplesPerChannel.toNat < 2147483648) (mode : Mode)
    (target : Nat) :
    ∃ reduced, Frame.ofSamples? f.channels (UInt32.ofNat (reducedLength f mode target))
      (reduceChannels f mode target) = .ok reduced := by
  have hcount : (channelsOf f mode target).length = f.channels.toNat := by
    rw [channelsOf, List.length_map, List.length_range]
  obtain ⟨reduced, hok, -⟩ := Frame.ofSamples?_flatten hcount
    (fun part => length_of_mem_channelsOf mode target) (reducedLength_lt hsmall mode target)
  exact ⟨reduced, reduceChannels_eq f mode target ▸ hok⟩

/-- What becomes of a frame whose reduced channels have the right shape. -/
theorem decimateFrame_of_ok (d : Decimator) {reduced : Frame}
    (hok : Frame.ofSamples? f.channels
      (UInt32.ofNat (reducedLength f (d.mode.effective (d.rateFor f).toFloat) d.target))
      (reduceChannels f (d.mode.effective (d.rateFor f).toFloat) d.target) = .ok reduced) :
    (d.decimateFrame f).1 = { reduced with
      sequence := f.sequence, timestamp := f.timestamp, firstIndex := f.firstIndex,
      flags := f.flags, rate := (d.decimateFrame f).1.rate } := by
  rw [← length_reduceChannels] at hok
  simp only [decimateFrame, hok]

/-- **Channel by channel.** For every frame with a channel and with fewer than 2^31 samples per
channel, and every state of the decimator: what was asked for stays, and the algorithm that is
reported is the one for the rate of the frame. The samples made of the channels are accepted as the
frame they are meant to be. It has the channels and the metadata of the input; its length is the
computed one; and each of its channels is the reduced channel of the input. -/
theorem decimateFrame_channelwise (d : Decimator) (hsome : 1 ≤ f.channels.toNat)
    (hsmall : f.samplesPerChannel.toNat < 2147483648) :
    let g := (d.decimateFrame f).1
    let d' := (d.decimateFrame f).2
    let samples := reduceChannels f d'.effective d.target
    d'.mode = d.mode ∧ d'.target = d.target ∧
    d'.effective = d.mode.effective (d.rateFor f).toFloat ∧
    (∃ reduced, Frame.ofSamples? f.channels (UInt32.ofNat (samples.length / f.channels.toNat))
        samples = .ok reduced ∧ g.storage = reduced.storage) ∧
    g.channels = f.channels ∧ g.sequence = f.sequence ∧ g.timestamp = f.timestamp ∧
    g.firstIndex = f.firstIndex ∧ g.flags = f.flags ∧
    outputLength? f.samplesPerChannel.toNat d'.effective d.target =
      some g.samplesPerChannel.toNat ∧
    ∀ channel, g.channel? channel =
      (f.channel? channel).map fun part => decimate part d'.effective d.target := by
  intro g d' samples
  have hchannels : f.channels ≠ 0 := by
    rintro hzero
    rw [hzero] at hsome
    exact absurd hsome (by decide)
  have hquotient : samples.length / f.channels.toNat = reducedLength f d'.effective d.target := by
    rw [← length_reduceChannels, if_neg hchannels]
  obtain ⟨reduced, hok⟩ := ofSamples?_reduceChannels hsmall d'.effective d.target
  have hg : g = _ := d.decimateFrame_of_ok hok
  obtain ⟨hkept, hlength, hchannel⟩ := d.decimateFrame_eq hsmall
  refine ⟨rfl, rfl, rfl, ⟨reduced, hquotient ▸ hok, by rw [hg]⟩, hkept, by rw [hg], by rw [hg],
    by rw [hg], by rw [hg], ?_, ?_⟩
  · rw [hlength, UInt32.toNat_ofNat_of_lt' (reducedLength_lt hsmall _ _)]
    exact outputLength?_frame hchannels d'.effective d.target
  · intro channel
    exact (hchannel channel).trans (getElem?_channelsOf f d'.effective d.target channel)

/-- Two channels whose rate is too high for triangles. -/
theorem decimateFrame_channelwise_fast :
    let f : Frame := { channels := 2, samplesPerChannel := 5, rate := ⟨0x41a7d78400000000⟩
                       storage := .owned [1, 9, 2, 8, 3, -1, -9, -2, -8, -3], fits := rfl }
    let reduced := (Decimator.new .triangle 2).decimateFrame f
    reduced.2.mode = .triangle ∧ reduced.2.effective = .minMax ∧
      reduced.1.channel? 0 = some [1, 9, 2, 8] ∧ reduced.1.channel? 1 = some [-9, -1, -8, -2] := by
  intro f reduced
  obtain ⟨hmode, -, heffective, -, -, -, -, -, -, -, hchannel⟩ :=
    (Decimator.new .triangle 2).decimateFrame_channelwise (f := f) (by decide) (by decide)
  exact ⟨hmode, heffective.trans (by decide +kernel), (hchannel 0).trans (by decide +kernel),
    (hchannel 1).trans (by decide +kernel)⟩

end Decimator

end Oscilloscope
