import Oscilloscope.Proofs.Double.Sign
import Oscilloscope.Proofs.Ring.Delivery
import Oscilloscope.Settings.Validation

/-!
# Oscilloscope.Proofs.Ring.Throttling

Whether the two ends of a link can wait for each other.

The feeder waits while a ring is nearly full, the reader while a ring holds less than a block. As
long as whole blocks are fed and read, all rings are equally full, so both look at the same level.

* `Link.Even`: the rings of a link are equally full. `Link.Even.feed` and `Link.Even.read` keep it.
* `Link.Even.shouldThrottle`, `Link.Even.read_ok_iff`: what the two ends decide at a level.
* `Link.run_throttled_iff`: the reader is never starved by a waiting feeder exactly if no level
  below a block counts as nearly full.
* `Link.run_starved`: a block as long as the ring is too long for that.
-/

namespace Oscilloscope
namespace Link

/-- Whether a ring of `capacity` samples that holds `level` counts as nearly full. -/
def nearlyFull (level capacity : Nat) : Bool :=
  decide (throttleRatio < Float.ofNat level / Float.ofNat capacity)

theorem foldl_fillRatio {rings : List (Ring Sample)} {v m : Float}
    (hratio : ∀ ring ∈ rings, ring.fillRatio = v) (hm : ¬m < v ∨ m = v) :
    rings.foldl (fun m r => if m < r.fillRatio then r.fillRatio else m) m = m := by
  induction rings with
  | nil => rfl
  | cons ring rest ih =>
    rw [List.forall_mem_cons] at hratio
    have hhere : (if m < ring.fillRatio then ring.fillRatio else m) = m := by
      rw [hratio.1]
      rcases hm with hnot | rfl
      · exact if_neg hnot
      · exact ite_self m
    rw [List.foldl_cons, hhere, ih hratio.2]

/-- The highest fill ratio, if all rings have the same. -/
theorem fillRatio_of_forall {l : Link} {v : Float} (hne : l.rings ≠ [])
    (hratio : ∀ ring ∈ l.rings, ring.fillRatio = v) :
    l.fillRatio = if 0.0 < v then v else 0.0 := by
  obtain ⟨ring, rest, hrings⟩ := List.exists_cons_of_ne_nil hne
  rw [hrings, List.forall_mem_cons] at hratio
  rw [fillRatio, hrings, List.foldl_cons, hratio.1]
  by_cases hpos : 0.0 < v
  · rw [if_pos hpos, foldl_fillRatio hratio.2 (.inr rfl)]
  · rw [if_neg hpos, foldl_fillRatio hratio.2 (.inl hpos)]

theorem unsigned_throttleRatio : Unsigned throttleRatio.toModel.unpack := by rfl

/-- The feeder compares with the common ratio: only a ratio above zero can be too high. -/
theorem throttleRatio_lt_fillRatio {l : Link} {level room : Nat} (hne : l.rings ≠ [])
    (hratio : ∀ ring ∈ l.rings, ring.fillRatio = Float.ofNat level / Float.ofNat room) :
    decide (throttleRatio < l.fillRatio) = nearlyFull level room := by
  rw [fillRatio_of_forall hne hratio, nearlyFull]
  by_cases hpos : 0.0 < Float.ofNat level / Float.ofNat room
  · rw [if_pos hpos]
  · have hzero : ¬throttleRatio < 0.0 := not_lt_zero unsigned_throttleRatio
    have hratio : ¬throttleRatio < Float.ofNat level / Float.ofNat room := fun hlt =>
      hpos (zero_lt_of_lt unsigned_throttleRatio
        (unsigned_div (unsigned_ofNat level) (unsigned_ofNat room)) hlt)
    rw [if_neg hpos, decide_eq_false hzero, decide_eq_false hratio]

/-- The rings are open, have room for `room` samples each, and hold `level` each. -/
structure Even (channels room block level : Nat) (rate : Double) (l : Link) : Prop where
  valid : l.Valid
  channels_eq : l.lanes.length = channels
  block_eq : l.blockLength = block
  rate_eq : l.feedRate = rate
  ring : ∀ lane ∈ l.lanes, lane.ring.capacity = room ∧ lane.ring.length = level ∧
    lane.ring.closed = false

namespace Even

variable {channels room block level : Nat} {rate : Double} {l : Link}

theorem new (channels : UInt32) (capacity : Nat) (block : UInt32) (rate : Double) :
    (Link.new channels capacity block rate).Even (max channels.toNat 1) (max capacity 1)
      (max block.toNat 1) 0 rate where
  valid := new_valid channels capacity block rate
  channels_eq := by rw [new_lanes, List.length_replicate]
  block_eq := rfl
  rate_eq := rfl
  ring := by
    intro lane hlane
    rw [new_lanes] at hlane
    rw [List.eq_of_mem_replicate hlane]
    exact ⟨Ring.capacity_new capacity 0, rfl, rfl⟩

/-- Lanes that are alike again make an even link. -/
theorem of_lanes (h : l.Even channels room block level rate) {l' : Link} {level' : Nat}
    (hblock : l'.blockLength = l.blockLength) (hrate : l'.feedRate = l.feedRate)
    (hlength : l'.lanes.length = l.lanes.length)
    (hlane : ∀ lane ∈ l'.lanes, lane.ring.Valid ∧ lane.ring.capacity = room ∧
      lane.ring.length = level' ∧ lane.ring.closed = false) :
    l'.Even channels room block level' rate where
  valid := h.valid.of_lanes hblock hlength fun lane hmem => (hlane lane hmem).1
  channels_eq := hlength.trans h.channels_eq
  block_eq := hblock.trans h.block_eq
  rate_eq := hrate.trans h.rate_eq
  ring := fun lane hmem => (hlane lane hmem).2

theorem feed (h : l.Even channels room block level rate) {b : Buffer} (hb : b.Complete channels) :
    (l.feed b).2.Even channels room block (level + min b.samplesPerChannel.toNat (room - level))
      rate := by
  refine h.of_lanes rfl rfl (by rw [feed_lanes, List.length_mapIdx]) ?_
  intro lane hmem
  rw [feed_lanes] at hmem
  obtain ⟨channel, hlt, rfl⟩ := List.mem_mapIdx.mp hmem
  have hold := List.getElem_mem hlt
  obtain ⟨hcapacity, hlevel, hopen⟩ := h.ring _ hold
  have hvalid := h.valid.ring _ hold
  have hchannel : channel < channels := h.channels_eq ▸ hlt
  obtain ⟨hvalid', hcontents, hcapacity', hclosed', -⟩ :=
    Lane.feed_spec hvalid (hb.channel_eq hchannel)
  refine ⟨hvalid', hcapacity'.trans hcapacity, ?_, hclosed'.trans hopen⟩
  have hfree := hvalid.length_add_free
  rw [← Ring.length_contents hvalid', hcontents, List.length_append, List.length_take,
    Ring.length_contents hvalid, hb.length hchannel, Nat.min_comm]
  rw [hlevel, hcapacity] at hfree
  rw [hlevel]
  omega

theorem available (h : l.Even channels room block level rate) : l.available = level := by
  have hle (k : Nat) : k ≤ l.available ↔ k ≤ level := by
    rw [le_available h.valid.lanes_ne]
    constructor
    · intro hall
      obtain ⟨lane, hlane⟩ := List.exists_mem_of_ne_nil _ h.valid.lanes_ne
      exact (h.ring lane hlane).2.1 ▸ hall lane hlane
    · intro hlevel lane hlane
      rwa [(h.ring lane hlane).2.1]
  exact Nat.le_antisymm ((hle _).mp (Nat.le_refl _)) ((hle _).mpr (Nat.le_refl _))

theorem drain (h : l.Even channels room block level rate) (count : Nat) :
    (l.drain count).Even channels room block (level - count) rate := by
  refine h.of_lanes rfl rfl (List.length_map _) ?_
  intro lane hmem
  obtain ⟨old, hold, rfl⟩ := List.mem_map.mp hmem
  obtain ⟨hcapacity, hlevel, hopen⟩ := h.ring old hold
  have hvalid := h.valid.ring old hold
  obtain ⟨hvalid', hcontents, hcapacity', hclosed'⟩ := Lane.drain_spec hvalid count
  refine ⟨hvalid', hcapacity'.trans hcapacity, ?_, hclosed'.trans hopen⟩
  rw [← Ring.length_contents hvalid', hcontents, List.length_drop, Ring.length_contents hvalid,
    hlevel]

theorem allClosed (h : l.Even channels room block level rate) : l.allClosed = false := by
  obtain ⟨lane, hlane⟩ := List.exists_mem_of_ne_nil _ h.valid.lanes_ne
  rw [Link.allClosed, List.all_eq_false]
  refine ⟨lane.ring, List.mem_map_of_mem hlane, ?_⟩
  rw [(h.ring lane hlane).2.2]
  exact Bool.false_ne_true

/-- The reader gives a block exactly if there is one. -/
theorem read_ok_iff (h : l.Even channels room block level rate) :
    (∃ b, l.read.1 = .ok b) ↔ block ≤ level := by
  have hreads := Link.reads h.valid
  have hopen := h.allClosed
  have havailable := h.available
  generalize l.read = outcome at hreads ⊢
  cases hreads with
  | @block count hpos hle hsize =>
    have hlevel := (le_available h.valid.lanes_ne _).mpr hle
    rw [h.block_eq, hopen, havailable] at hsize
    rw [havailable] at hlevel
    rcases hsize with rfl | ⟨hclosed, -⟩
    · exact ⟨fun _ => hlevel, fun _ => ⟨_, rfl⟩⟩
    · cases hclosed
  | noData _ hshort =>
    rw [havailable, h.block_eq] at hshort
    constructor
    · rintro ⟨b, hb⟩
      cases hb
    · intro hfull
      omega
  | endOfStream hclosed =>
    rw [hopen] at hclosed
    cases hclosed

theorem read (h : l.Even channels room block level rate) :
    ∃ level', l.read.2.Even channels room block level' rate := by
  have hreads := Link.reads h.valid
  generalize l.read = outcome at hreads ⊢
  cases hreads with
  | block => exact ⟨_, h.drain _⟩
  | noData => exact ⟨level, h⟩
  | endOfStream => exact ⟨level, h⟩

/-- The feeder goes by the level alone, if the rate is not so high that it does not wait at all. -/
theorem shouldThrottle (h : l.Even channels room block level rate) :
    l.shouldThrottle =
      (decide (rate.toFloat < Decimation.Mode.highRate) && nearlyFull level room) := by
  have hratio : ∀ ring ∈ l.rings, ring.fillRatio = Float.ofNat level / Float.ofNat room := by
    intro ring hring
    obtain ⟨lane, hlane, rfl⟩ := List.mem_map.mp hring
    obtain ⟨hcapacity, hlevel, -⟩ := h.ring lane hlane
    rw [Ring.fillRatio, hcapacity, hlevel]
  have hne : l.rings ≠ [] := by simpa [rings] using h.valid.lanes_ne
  rw [Link.shouldThrottle, h.rate_eq, throttleRatio_lt_fillRatio hne hratio]

end Even

/-! ## Runs -/

/-- Whole blocks with all channels are fed, and blocks are read. -/
def AtWork (channels : Nat) (ops : List Operation) : Prop :=
  ∀ op ∈ ops, op = .read ∨ ∃ b, op = .feed b ∧ b.Fits ∧ b.Complete channels

theorem run_even (channels : UInt32) (capacity : Nat) (block : UInt32) (rate : Double)
    {ops : List Operation} (hops : AtWork (max channels.toNat 1) ops) :
    ∃ level, (History.run { link := new channels capacity block rate } ops).link.Even
      (max channels.toNat 1) (max capacity 1) (max block.toNat 1) level rate := by
  induction ops using List.reverseRecOn with
  | nil => exact ⟨0, .new channels capacity block rate⟩
  | append_singleton ops op ih =>
    obtain ⟨level, h⟩ := ih fun op hop => hops op (List.mem_append_left _ hop)
    rw [History.run_append]
    rcases hops op (by simp) with rfl | ⟨b, rfl, -, hb⟩
    · exact h.read
    · exact ⟨_, h.feed hb⟩

/-- A block of zeros with `level` samples per channel. -/
def zeroBlock (channels level : Nat) : Buffer where
  channels := UInt32.ofNat channels
  samplesPerChannel := UInt32.ofNat level
  samples := List.replicate (channels * level) 0

theorem zeroBlock_fits {channels level : Nat} (hchannels : channels < 2 ^ 32)
    (hlevel : level < 2 ^ 32) : (zeroBlock channels level).Fits := by
  have h1 : (UInt32.ofNat channels).toNat = channels := UInt32.toNat_ofNat_of_lt' hchannels
  have h2 : (UInt32.ofNat level).toNat = level := UInt32.toNat_ofNat_of_lt' hlevel
  simp only [Buffer.Fits, zeroBlock, List.length_replicate, h1, h2]

theorem zeroBlock_complete {channels level : Nat} (hchannels : channels < 2 ^ 32)
    (hlevel : level < 2 ^ 32) : (zeroBlock channels level).Complete channels := by
  intro channel hlt
  have h1 : (UInt32.ofNat channels).toNat = channels := UInt32.toNat_ofNat_of_lt' hchannels
  have h2 : (UInt32.ofNat level).toNat = level := UInt32.toNat_ofNat_of_lt' hlevel
  simp only [Buffer.channel?, channelOf, zeroBlock, List.length_replicate, h1, h2,
    Option.isSome_ite]
  exact ⟨hlt, Nat.mul_le_mul_right level hlt⟩

/-- One block brings the rings of a new link to any level that they have room for. -/
theorem run_zeroBlock (channels : UInt32) (capacity : Nat) (block : UInt32) (rate : Double)
    {level : Nat} (hlevel : level < 2 ^ 32) (hroom : level ≤ capacity) (hpos : 0 < capacity) :
    AtWork (max channels.toNat 1) [.feed (zeroBlock (max channels.toNat 1) level)] ∧
      (History.run { link := new channels capacity block rate }
        [.feed (zeroBlock (max channels.toNat 1) level)]).link.Even
        (max channels.toNat 1) capacity (max block.toNat 1) level rate := by
  have hchannels : max channels.toNat 1 < 2 ^ 32 :=
    Nat.max_lt.mpr ⟨channels.toNat_lt, by decide⟩
  have hcomplete := zeroBlock_complete hchannels hlevel
  have heven := (Even.new channels capacity block rate).feed hcomplete
  have hlong : (zeroBlock (max channels.toNat 1) level).samplesPerChannel.toNat = level :=
    UInt32.toNat_ofNat_of_lt' hlevel
  rw [hlong, Nat.max_eq_left hpos, Nat.sub_zero, Nat.zero_add, Nat.min_eq_left hroom] at heven
  refine ⟨?_, heven⟩
  intro op hop
  rw [List.mem_singleton.mp hop]
  exact .inr ⟨_, rfl, zeroBlock_fits hchannels hlevel, hcomplete⟩

/-- **The two ends do not wait for each other** exactly if no level below a block counts as nearly
full. Then the feeder waits only while the reader has a block to read. -/
theorem run_throttled_iff (channels : UInt32) (capacity : Nat) (block : UInt32) (rate : Double)
    (hpos : 0 < block.toNat) (hfits : block.toNat ≤ capacity) :
    (∀ ops, AtWork (max channels.toNat 1) ops →
      let l := (History.run { link := new channels capacity block rate } ops).link
      l.shouldThrottle = true → ∃ b, l.read.1 = .ok b) ↔
    (rate.toFloat < Decimation.Mode.highRate →
      ∀ level < block.toNat, nearlyFull level capacity = false) := by
  have hcapacity : max capacity 1 = capacity := Nat.max_eq_left (by omega)
  have hblock : max block.toNat 1 = block.toNat := Nat.max_eq_left hpos
  constructor
  · -- A block of `level` samples is too short for the reader, so the feeder must not wait.
    intro hread hrate level hshort
    have hlong : level < 2 ^ 32 := by
      have := block.toNat_lt
      omega
    obtain ⟨hwork, heven⟩ :=
      run_zeroBlock channels capacity block rate hlong (by omega) (by omega)
    by_contra hfull
    rw [Bool.not_eq_false] at hfull
    have hthrottle := heven.shouldThrottle
    rw [hfull, decide_eq_true hrate] at hthrottle
    have hle := heven.read_ok_iff.mp (hread _ hwork hthrottle)
    omega
  · -- The feeder waits for rings that are nearly full, so they hold a block.
    intro hlow ops hwork l hthrottle
    obtain ⟨level, heven⟩ := run_even channels capacity block rate hwork
    rw [hcapacity, hblock] at heven
    refine heven.read_ok_iff.mpr ?_
    rw [heven.shouldThrottle, Bool.and_eq_true, decide_eq_true_iff] at hthrottle
    by_contra hshort
    rw [hlow hthrottle.1 level (by omega)] at hthrottle
    cases hthrottle.2

/-- Two channels, ten samples of room, blocks of nine: nine tenths are not nearly full. -/
theorem run_throttled_ten :
    let rate : Double := .ofFloat 1000000.0
    0 < (9 : UInt32).toNat ∧ (9 : UInt32).toNat ≤ 10 ∧
      ∀ ops, AtWork 2 ops →
        let l := (History.run { link := new 2 10 9 rate } ops).link
        l.shouldThrottle = true → ∃ b, l.read.1 = .ok b := by
  intro rate
  have hlow : ∀ level < (9 : UInt32).toNat, nearlyFull level 10 = false := by decide +kernel
  exact ⟨by decide, by decide,
    (run_throttled_iff 2 10 9 rate (by decide) (by decide)).mpr fun _ => hlow⟩

/-- A block as long as the ring, and one sample missing for it: the feeder waits for the reader to
make room, the reader for the feeder to complete the block, and a read changes nothing. -/
theorem run_starved :
    let ingest : Settings.Ingest := { channelCount := 1, ringCapacity := 11, blockSamples := 11 }
    let ops := [Operation.feed (zeroBlock 1 10)]
    let l := (History.run { link := new 1 11 11 ingest.sampleRate } ops).link
    Settings.validate { ingest } = .ok () ∧ AtWork 1 ops ∧ l.shouldThrottle = true ∧
      l.read = (.error .noData, l) := by
  refine ⟨by decide +kernel, ?_, by decide +kernel, by rfl⟩
  intro op hop
  rw [List.mem_singleton.mp hop]
  exact .inr ⟨_, rfl, by decide, by decide⟩

end Link
end Oscilloscope
