import Oscilloscope.Frame

/-!
# Oscilloscope.Proofs.Frame.Channels

The channels of a block, cut out of its samples.

* `length_channelOf`, `channelOf_of_le`: a channel is complete, and so are the channels before it.
* `channelOf_flatten`: channels of one length, put behind each other, are found again.
* `Buffer.Complete`: a block that has all channels that are asked for. `Buffer.Fits`: a block that
  has as many samples as its shape says.
* `Frame.channel_eq`: a frame has all of its channels.
* `Frame.ofSamples?_flatten`: a frame made of its channels.
-/

namespace Oscilloscope

variable {samples part : List Sample} {channels samplesPerChannel : UInt32} {channel : Nat}

theorem length_channelOf (h : channelOf samples channels samplesPerChannel channel = some part) :
    part.length = samplesPerChannel.toNat := by
  simp only [channelOf] at h
  split at h
  · rename_i hin
    cases h
    have hend : (channel + 1) * samplesPerChannel.toNat =
        channel * samplesPerChannel.toNat + samplesPerChannel.toNat := by rw [Nat.succ_mul]
    rw [List.length_take, List.length_drop]
    omega
  · cases h

theorem channelOf_of_le {before : Nat} (hle : before ≤ channel)
    (h : (channelOf samples channels samplesPerChannel channel).isSome) :
    (channelOf samples channels samplesPerChannel before).isSome := by
  simp only [channelOf, Option.isSome_ite] at h ⊢
  obtain ⟨hlt, hend⟩ := h
  have := Nat.mul_le_mul_right samplesPerChannel.toNat (Nat.add_le_add_right hle 1)
  exact ⟨by omega, by omega⟩

theorem drop_flatten {parts : List (List Sample)} {n : Nat} (h : ∀ part ∈ parts, part.length = n)
    (k : Nat) : parts.flatten.drop (k * n) = (parts.drop k).flatten := by
  induction parts generalizing k with
  | nil => simp
  | cons part parts ih =>
    have hpart : part.length = n := h part List.mem_cons_self
    have hparts : ∀ part ∈ parts, part.length = n :=
      fun part hm => h part (List.mem_cons_of_mem _ hm)
    cases k with
    | zero => simp
    | succ k =>
      rw [List.flatten_cons, List.drop_succ_cons, ← ih hparts k, List.drop_append,
        List.drop_of_length_le (by rw [hpart, Nat.succ_mul]; omega), List.nil_append, hpart,
        Nat.succ_mul, Nat.add_sub_cancel]

theorem channelOf_flatten {parts : List (List Sample)}
    (hlen : ∀ part ∈ parts, part.length = samplesPerChannel.toNat)
    (hcount : parts.length = channels.toNat) :
    channelOf parts.flatten channels samplesPerChannel channel = parts[channel]? := by
  have htotal : parts.flatten.length = parts.length * samplesPerChannel.toNat := by
    rw [List.length_flatten, List.map_congr_left hlen, List.map_const', List.sum_replicate_nat]
  simp only [channelOf]
  by_cases hlt : channel < parts.length
  · have hnext : channel + 1 ≤ parts.length := hlt
    have hend := Nat.mul_le_mul_right samplesPerChannel.toNat hnext
    rw [if_pos ⟨by omega, by omega⟩, drop_flatten hlen, List.drop_eq_getElem_cons hlt,
      List.flatten_cons, List.getElem?_eq_getElem hlt,
      List.take_left' (hlen _ (List.getElem_mem hlt))]
  · rw [if_neg (by omega), List.getElem?_eq_none (by omega)]

namespace Buffer

/-- The samples of a channel; none if the block lacks it. -/
def samplesOf (b : Buffer) (channel : Nat) : List Sample := (b.channel? channel).getD []

/-- The block holds the first `channels` channels completely. -/
def Complete (channels : Nat) (b : Buffer) : Prop :=
  ∀ channel < channels, (b.channel? channel).isSome

instance (channels : Nat) (b : Buffer) : Decidable (b.Complete channels) :=
  inferInstanceAs (Decidable (∀ channel < channels, (b.channel? channel).isSome))

/-- The sample count fits the shape. -/
def Fits (b : Buffer) : Prop := b.samples.length = b.channels.toNat * b.samplesPerChannel.toNat

instance (b : Buffer) : Decidable b.Fits := inferInstanceAs (Decidable (_ = _))

theorem Complete.channel_eq {channels : Nat} {b : Buffer} (h : b.Complete channels)
    (hlt : channel < channels) : b.channel? channel = some (b.samplesOf channel) := by
  obtain ⟨samples, hsome⟩ := Option.isSome_iff_exists.mp (h channel hlt)
  rw [samplesOf, hsome, Option.getD_some]

theorem Complete.length {channels : Nat} {b : Buffer} (h : b.Complete channels)
    (hlt : channel < channels) : (b.samplesOf channel).length = b.samplesPerChannel.toNat :=
  length_channelOf (h.channel_eq hlt)

end Buffer

namespace Frame

theorem ofSamples?_of_fits (fits : samples.length = channels.toNat * samplesPerChannel.toNat) :
    Frame.ofSamples? channels samplesPerChannel samples =
      .ok { channels, samplesPerChannel, storage := .owned samples, fits } := by
  unfold Frame.ofSamples? Frame.ofStorage?
  exact dif_pos fits

theorem fits_of_ofSamples? {f : Frame}
    (hok : Frame.ofSamples? channels samplesPerChannel samples = .ok f) :
    ∃ fits, f = { channels, samplesPerChannel, storage := .owned samples, fits } := by
  unfold Frame.ofSamples? Frame.ofStorage? at hok
  split at hok
  · cases hok
    exact ⟨_, rfl⟩
  · cases hok

/-- Parts of one length, put behind each other, are the channels of a frame. -/
theorem ofSamples?_flatten {parts : List (List Sample)} {each : Nat}
    (hcount : parts.length = channels.toNat) (hall : ∀ part ∈ parts, part.length = each)
    (hword : each < UInt32.size) :
    ∃ f, Frame.ofSamples? channels (UInt32.ofNat each) parts.flatten = .ok f ∧
      f.channels = channels ∧ f.samplesPerChannel = UInt32.ofNat each ∧
      ∀ channel, f.channel? channel = parts[channel]? := by
  have heach : (UInt32.ofNat each).toNat = each := UInt32.toNat_ofNat_of_lt' hword
  have fits : parts.flatten.length = channels.toNat * (UInt32.ofNat each).toNat := by
    rw [heach, List.length_flatten, List.map_congr_left hall, List.map_const',
      List.sum_replicate_nat, hcount]
  refine ⟨_, ofSamples?_of_fits fits, rfl, rfl, ?_⟩
  intro channel
  apply channelOf_flatten
  · rwa [heach]
  · exact hcount

/-- The samples of a channel; none if there is no such channel. -/
def samplesOf (f : Frame) (channel : Nat) : List Sample := (f.channel? channel).getD []

theorem channel_eq (f : Frame) (hlt : channel < f.channels.toNat) :
    f.channel? channel = some (f.samplesOf channel) := by
  have hend := Nat.mul_le_mul_right f.samplesPerChannel.toNat (Nat.succ_le_of_lt hlt)
  have hin : channel < f.channels.toNat ∧
      (channel + 1) * f.samplesPerChannel.toNat ≤ f.samples.length := by
    rw [samples, f.fits]
    exact ⟨hlt, hend⟩
  simp only [samplesOf, channel?, channelOf, if_pos hin, Option.getD_some]

theorem length_samplesOf (f : Frame) (hlt : channel < f.channels.toNat) :
    (f.samplesOf channel).length = f.samplesPerChannel.toNat :=
  length_channelOf (f.channel_eq hlt)

end Frame

end Oscilloscope
