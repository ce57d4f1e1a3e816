import Mathlib.Data.List.Induction
import Oscilloscope.Proofs.Ring.Lanes

/-!
# Oscilloscope.Proofs.Ring.Delivery

A link with its past: every sample that a ring took is delivered once and in order, and the
counters know about the others.

`History` runs whole operations on a link, in any order, and writes down what each ring took and
what the reads answered.

* `Lane.Accounts`: what holds for one lane. `Lane.Accounts.feed` and `Lane.Accounts.drain` are its
  two steps.
* `History.Record`: what holds for the answers so far.
* `History.feed_sound`, `History.read_sound`, `History.close_sound`: every operation preserves both.
* `History.run_delivers`: what a link promises after any operations.
-/

namespace Oscilloscope

/-! ## One lane -/

/-- The state of a lane: the ring has room for `room` samples and holds `level` of them, `total`
samples were offered to it, and it took those in `accepted`, of which those in `returned` are out
again. -/
structure Lane.Accounts (room level total : Nat) (closed : Prop)
    (accepted returned : List Sample) (lane : Lane) : Prop where
  valid : lane.ring.Valid
  closed : lane.ring.closed = true ↔ closed
  capacity : lane.ring.capacity = room
  level : lane.ring.contents.length = level
  conserved : returned ++ lane.ring.contents = accepted
  pushed : lane.counter.pushed.toNat = accepted.length
  counted : lane.counter.pushed.toNat + lane.counter.dropped.toNat = total

namespace Lane.Accounts

variable {room level total channel : Nat} {closed : Prop}
  {accepted returned samples : List Sample} {lane : Lane}

theorem length (h : lane.Accounts room level total closed accepted returned) :
    lane.ring.length = level := by
  rw [← h.level, Ring.length_contents h.valid]

theorem free (h : lane.Accounts room level total closed accepted returned) :
    lane.ring.free = room - level := by
  have := h.valid.length_add_free
  rw [h.length, h.capacity] at this
  omega

theorem feed (h : lane.Accounts room level total closed accepted returned) {b : Buffer}
    (hsome : b.channel? channel = some samples)
    (hsmall : total + b.samplesPerChannel.toNat < 2 ^ 64) :
    (lane.feed b channel).Accounts room
      (level + min b.samplesPerChannel.toNat (room - level))
      (total + b.samplesPerChannel.toNat) closed
      (accepted ++ samples.take (min b.samplesPerChannel.toNat (room - level))) returned := by
  have hlen : samples.length = b.samplesPerChannel.toNat := length_channelOf hsome
  obtain ⟨hvalid, hcontents, hcapacity, hclosed, hcounter⟩ := feed_spec h.valid hsome
  rw [h.free, hlen] at hcounter
  have htake : samples.take lane.ring.free =
      samples.take (min b.samplesPerChannel.toNat (room - level)) := by
    rw [h.free, ← hlen, Nat.min_comm, ← List.take_eq_take_min]
  rw [htake] at hcontents
  generalize hn : min b.samplesPerChannel.toNat (room - level) = n at *
  have htaken : (samples.take n).length = n := by
    rw [List.length_take]
    omega
  have hfits : n ≤ b.samplesPerChannel.toNat := by omega
  have hexact := DropCounter.record_exact hfits (h.counted.symm ▸ hsmall)
  rw [← hcounter] at hexact
  refine ⟨hvalid, hclosed ▸ h.closed, hcapacity.trans h.capacity, ?_, ?_, ?_, ?_⟩
  · rw [hcontents, List.length_append, h.level, htaken]
  · rw [hcontents, ← List.append_assoc, h.conserved]
  · rw [hexact.1, h.pushed, List.length_append, htaken]
  · have := h.counted
    omega

theorem drain (h : lane.Accounts room level total closed accepted returned) (count : Nat) :
    (lane.drain count).Accounts room (level - count) total closed accepted
      (returned ++ lane.ring.contents.take count) := by
  obtain ⟨hvalid, hcontents, hcapacity, hclosed⟩ := drain_spec h.valid count
  refine ⟨hvalid, hclosed ▸ h.closed, hcapacity.trans h.capacity, ?_, ?_, h.pushed, h.counted⟩
  · rw [hcontents, List.length_drop, h.level]
  · rw [hcontents, List.append_assoc, List.take_append_drop, h.conserved]

theorem close (h : lane.Accounts room level total closed accepted returned) {closed' : Prop}
    (hclosed : closed') :
    Accounts room level total closed' accepted returned { lane with ring := lane.ring.close } :=
  ⟨h.valid.close, ⟨fun _ => hclosed, fun _ => rfl⟩, h.capacity, h.level, h.conserved, h.pushed,
    h.counted⟩

end Lane.Accounts

/-! ## A link with its past -/

namespace Link

/-- The whole operations of the two ends. -/
inductive Operation where
  | feed (b : Buffer)
  | read
  | close

/-- How many samples per channel an operation offers. -/
def Operation.offered : Operation → Nat
  | .feed b => b.samplesPerChannel.toNat
  | _ => 0

structure History where
  link : Link
  /-- What the ring of each channel took, in order. -/
  accepted : Nat → List Sample := fun _ => []
  /-- What the reads answered, in order. -/
  results : List (Except ReadError Buffer) := []

namespace History

def step (h : History) : Operation → History
  | .feed b =>
    { h with
      link := (h.link.feed b).2
      accepted := fun channel =>
        h.accepted channel ++ (b.samplesOf channel).take (h.link.accepts b channel) }
  | .read => { h with link := h.link.read.2, results := h.results ++ [h.link.read.1] }
  | .close => { h with link := h.link.close }

def run (h : History) (ops : List Operation) : History := ops.foldl step h

/-- The blocks among the answers. -/
def blocks (results : List (Except ReadError Buffer)) : List Buffer :=
  results.filterMap Except.toOption

/-- The samples of a channel in all blocks that were read. -/
def returned (results : List (Except ReadError Buffer)) (channel : Nat) : List Sample :=
  (blocks results).flatMap (·.samplesOf channel)

/-- A block with fewer than `block` samples per channel. -/
def IsShort (block : Nat) (result : Except ReadError Buffer) : Prop :=
  ∃ b, result = .ok b ∧ b.samplesPerChannel.toNat < block

section Results

variable (results : List (Except ReadError Buffer)) (b : Buffer) (e : ReadError)

@[simp] theorem blocks_ok : blocks (results ++ [.ok b]) = blocks results ++ [b] := by
  simp [blocks, Except.toOption]

@[simp] theorem blocks_error : blocks (results ++ [.error e]) = blocks results := by
  simp [blocks, Except.toOption]

@[simp] theorem returned_ok (channel : Nat) :
    returned (results ++ [.ok b]) channel = returned results channel ++ b.samplesOf channel := by
  simp [returned]

@[simp] theorem returned_error (channel : Nat) :
    returned (results ++ [.error e]) channel = returned results channel := by
  simp [returned]

end Results

/-- What holds for the answers of a link with blocks of `block` samples, as long as it is not
`closed` or while its rings hold `level` samples. -/
structure Record (block level : Nat) (closed : Prop) (results : List (Except ReadError Buffer)) :
    Prop where
  numbered : (blocks results).map (·.sequence.toNat) = List.range (blocks results).length
  size : ∀ b ∈ blocks results, b.samplesPerChannel.toNat = block ∨
    b.samplesPerChannel.toNat < block ∧ closed ∧ level = 0
  last : results.Pairwise fun result later => IsShort block result → later = .error .endOfStream
  answer : ∀ result ∈ results, (∃ b, result = .ok b) ∨ result = .error .noData ∨
    result = .error .endOfStream

namespace Record

variable {block level : Nat} {closed : Prop} {results : List (Except ReadError Buffer)}

theorem level_zero (h : Record block level closed results) {result : Except ReadError Buffer}
    (hmem : result ∈ results) (hshort : IsShort block result) : closed ∧ level = 0 := by
  obtain ⟨b, rfl, hlt⟩ := hshort
  have hb : b ∈ blocks results := List.mem_filterMap.mpr ⟨.ok b, hmem, rfl⟩
  rcases h.size b hb with hfull | ⟨-, hend⟩
  · omega
  · exact hend

/-- While the stream is open, all blocks are full, and the rings may be filled. -/
theorem of_open (h : Record block level closed results) (hopen : ¬closed) {closed' : Prop}
    {level' : Nat} : Record block level' closed' results where
  numbered := h.numbered
  size := by
    intro b hb
    rcases h.size b hb with hfull | ⟨-, hclosed, -⟩
    · exact .inl hfull
    · exact absurd hclosed hopen
  last := h.last
  answer := h.answer

theorem close (h : Record block level closed results) {closed' : Prop} (hclosed : closed') :
    Record block level closed' results where
  numbered := h.numbered
  size := fun b hb => (h.size b hb).imp_right fun hshort => ⟨hshort.1, hclosed, hshort.2.2⟩
  last := h.last
  answer := h.answer

/-- A read that finds a sample adds a block. -/
theorem append_block (h : Record block level closed results) (hpos : 0 < level) {b : Buffer}
    {level' : Nat} (hsequence : b.sequence.toNat = (blocks results).length)
    (hsize : b.samplesPerChannel.toNat = block ∨
      b.samplesPerChannel.toNat < block ∧ closed ∧ level' = 0) :
    Record block level' closed (results ++ [.ok b]) where
  numbered := by
    rw [blocks_ok, List.map_append, h.numbered, List.length_append, List.map_singleton, hsequence,
      List.length_singleton, List.range_succ]
  size := by
    rw [blocks_ok, List.forall_mem_append, List.forall_mem_singleton]
    refine ⟨fun old hold => ?_, hsize⟩
    rcases h.size old hold with hfull | ⟨-, -, hzero⟩
    · exact .inl hfull
    · omega
  last := by
    rw [List.pairwise_append]
    refine ⟨h.last, List.pairwise_singleton _ _, ?_⟩
    intro result hmem later hlater hshort
    have := h.level_zero hmem hshort
    omega
  answer := by
    rw [List.forall_mem_append, List.forall_mem_singleton]
    exact ⟨h.answer, .inl ⟨b, rfl⟩⟩

/-- A read without a block says so, and after a short block it is the end of the stream. -/
theorem append_error (h : Record block level closed results) {e : ReadError}
    (he : e = .endOfStream ∨ e = .noData ∧ ¬closed) :
    Record block level closed (results ++ [.error e]) where
  numbered := by rw [blocks_error, h.numbered]
  size := by rw [blocks_error]; exact h.size
  last := by
    rw [List.pairwise_append]
    refine ⟨h.last, List.pairwise_singleton _ _, ?_⟩
    intro result hmem later hlater hshort
    rw [List.mem_singleton.mp hlater]
    rcases he with rfl | ⟨-, hopen⟩
    · rfl
    · exact absurd (h.level_zero hmem hshort).1 hopen
  answer := by
    rw [List.forall_mem_append, List.forall_mem_singleton]
    refine ⟨h.answer, .inr ?_⟩
    rcases he with rfl | ⟨rfl, -⟩
    · exact .inr rfl
    · exact .inl rfl

end Record

/-- Nothing is fed after a close. -/
def Orderly (ops : List Operation) : Prop :=
  ops.Pairwise fun op later => op = .close → ∀ b, later ≠ .feed b

/-- What every operation preserves. -/
structure Sound (channels room block level : Nat) (ops : List Operation) (h : History) : Prop where
  valid : h.link.Valid
  channels_eq : h.link.lanes.length = channels
  block_eq : h.link.blockLength = block
  lane : ∀ (channel : Nat) (lane : Lane), h.link.lanes[channel]? = some lane →
    lane.Accounts room level (ops.map Operation.offered).sum (.close ∈ ops) (h.accepted channel)
      (returned h.results channel)
  sequence : h.link.nextSequence.toNat = (blocks h.results).length
  count : ∀ channel < channels, (blocks h.results).length ≤ (returned h.results channel).length
  record : Record block level (.close ∈ ops) h.results

section Steps

variable {channels room block level : Nat} {ops : List Operation} {h : History}

theorem new_sound (channels : UInt32) (capacity : Nat) (block : UInt32) (rate : Double) :
    Sound (max channels.toNat 1) (max capacity 1) (max block.toNat 1) 0 []
      { link := Link.new channels capacity block rate } where
  valid := new_valid channels capacity block rate
  channels_eq := by rw [new_lanes, List.length_replicate]
  block_eq := rfl
  lane := by
    intro channel lane hlane
    rw [new_lanes] at hlane
    have hmem := List.mem_of_getElem? hlane
    rw [List.eq_of_mem_replicate hmem]
    exact ⟨Ring.new_valid capacity 0, by simp [Ring.new], Ring.capacity_new capacity 0,
      by rw [Ring.contents_new]; rfl, by rw [Ring.contents_new]; rfl, rfl, rfl⟩
  sequence := rfl
  count := fun _ _ => Nat.zero_le _
  record := ⟨rfl, by simp [blocks], .nil, by simp⟩

theorem Sound.mem (hs : h.Sound channels room block level ops) {lane : Lane}
    (hmem : lane ∈ h.link.lanes) : lane.ring.length = level ∧
      (lane.ring.closed = true ↔ .close ∈ ops) := by
  obtain ⟨channel, hlane⟩ := List.mem_iff_getElem?.mp hmem
  exact ⟨(hs.lane channel lane hlane).length, (hs.lane channel lane hlane).closed⟩

theorem Sound.get (hs : h.Sound channels room block level ops) {channel : Nat}
    (hlt : channel < channels) : ∃ lane, h.link.lanes[channel]? = some lane :=
  ⟨_, List.getElem?_eq_getElem (hs.channels_eq ▸ hlt)⟩

/-- The rings are equally full. -/
theorem Sound.forall_length (hs : h.Sound channels room block level ops) (p : Nat → Prop) :
    (∀ lane ∈ h.link.lanes, p lane.ring.length) ↔ p level := by
  constructor
  · intro hall
    obtain ⟨lane, hlane⟩ := List.exists_mem_of_ne_nil _ hs.valid.lanes_ne
    exact (hs.mem hlane).1 ▸ hall lane hlane
  · intro hlevel lane hlane
    rwa [(hs.mem hlane).1]

theorem Sound.available (hs : h.Sound channels room block level ops) :
    h.link.available = level := by
  have hle (k : Nat) : k ≤ h.link.available ↔ k ≤ level := by
    rw [le_available hs.valid.lanes_ne, hs.forall_length (k ≤ ·)]
  exact Nat.le_antisymm ((hle _).mp (Nat.le_refl _)) ((hle _).mpr (Nat.le_refl _))

theorem Sound.allClosed (hs : h.Sound channels room block level ops) :
    h.link.allClosed = true ↔ .close ∈ ops := by
  rw [Link.allClosed, List.all_eq_true, Link.rings, List.forall_mem_map]
  constructor
  · intro hall
    obtain ⟨lane, hlane⟩ := List.exists_mem_of_ne_nil _ hs.valid.lanes_ne
    exact (hs.mem hlane).2.mp (hall lane hlane)
  · intro hclosed lane hlane
    exact (hs.mem hlane).2.mpr hclosed

theorem valid_of_lanes (hs : h.Sound channels room block level ops) {l : Link} {total level' : Nat}
    {closed : Prop} {accepted returned : Nat → List Sample}
    (hblock : l.blockLength = h.link.blockLength) (hlen : l.lanes.length = h.link.lanes.length)
    (hlanes : ∀ (channel : Nat) (lane : Lane), l.lanes[channel]? = some lane →
      lane.Accounts room level' total closed (accepted channel) (returned channel)) :
    l.Valid := by
  apply hs.valid.of_lanes hblock hlen
  intro lane hmem
  obtain ⟨channel, hlane⟩ := List.mem_iff_getElem?.mp hmem
  exact (hlanes channel lane hlane).valid

/-- Each ring takes the same number of samples of a complete block. -/
theorem Sound.accepts (hs : h.Sound channels room block level ops) {b : Buffer}
    (hb : b.Complete channels) {channel : Nat} (hlt : channel < channels) :
    h.link.accepts b channel = min b.samplesPerChannel.toNat (room - level) := by
  obtain ⟨lane, hlane⟩ := hs.get hlt
  have hlane' := hs.lane channel lane hlane
  simp only [Link.accepts, hlane, Ring.push_eq hlane'.valid, hlane'.free, hb.length hlt]

theorem feed_sound (hs : h.Sound channels room block level ops) {b : Buffer}
    (hb : b.Complete channels) (hopen : .close ∉ ops)
    (hsmall : (ops.map Operation.offered).sum + b.samplesPerChannel.toNat < 2 ^ 64) :
    (h.step (.feed b)).Sound channels room block
      (level + min b.samplesPerChannel.toNat (room - level)) (ops ++ [Operation.feed b]) := by
  have hlanes : ∀ (channel : Nat) (lane : Lane),
      (h.step (.feed b)).link.lanes[channel]? = some lane →
      lane.Accounts room (level + min b.samplesPerChannel.toNat (room - level))
        ((ops ++ [Operation.feed b]).map Operation.offered).sum (.close ∈ ops ++ [Operation.feed b])
        ((h.step (.feed b)).accepted channel) (returned h.results channel) := by
    intro channel lane hlane
    simp only [step, feed_lanes, List.getElem?_mapIdx, Option.map_eq_some_iff] at hlane
    obtain ⟨old, hold, rfl⟩ := hlane
    have hlt : channel < channels := hs.channels_eq ▸ (List.getElem?_eq_some_iff.mp hold).1
    have hfed := (hs.lane channel old hold).feed (hb.channel_eq hlt) hsmall
    simpa [step, hs.accepts hb hlt, Operation.offered] using hfed
  have hcount : (h.step (.feed b)).link.lanes.length = h.link.lanes.length := by
    simp only [step, feed_lanes, List.length_mapIdx]
  have hblock : (h.step (.feed b)).link.blockLength = h.link.blockLength := by
    simp only [step, feed_lanes]
  exact ⟨valid_of_lanes hs hblock hcount hlanes, hcount.trans hs.channels_eq,
    hblock.trans hs.block_eq, hlanes, by simpa only [step, feed_lanes] using hs.sequence, hs.count,
    hs.record.of_open hopen⟩

theorem close_sound (hs : h.Sound channels room block level ops) :
    (h.step .close).Sound channels room block level (ops ++ [Operation.close]) := by
  have hclosed : Operation.close ∈ ops ++ [Operation.close] := by simp
  have hlanes : ∀ (channel : Nat) (lane : Lane), (h.step .close).link.lanes[channel]? = some lane →
      lane.Accounts room level ((ops ++ [Operation.close]).map Operation.offered).sum
        (.close ∈ ops ++ [Operation.close]) (h.accepted channel) (returned h.results channel) := by
    intro channel lane hlane
    simp only [step, Link.close, List.getElem?_map, Option.map_eq_some_iff] at hlane
    obtain ⟨old, hold, rfl⟩ := hlane
    have hshut := (hs.lane channel old hold).close hclosed
    simpa [Operation.offered] using hshut
  have hcount : (h.step .close).link.lanes.length = h.link.lanes.length := List.length_map _
  exact ⟨valid_of_lanes hs rfl hcount hlanes, hcount.trans hs.channels_eq, hs.block_eq, hlanes,
    hs.sequence, hs.count, hs.record.close hclosed⟩

/-- The block that a read takes, channel by channel. -/
theorem Sound.samplesOf_block (hs : h.Sound channels room block level ops) {count : Nat}
    (hle : count ≤ level) (hlt : count < 2 ^ 32) {channel : Nat} {lane : Lane}
    (hlane : h.link.lanes[channel]? = some lane) :
    (h.link.block count).samplesOf channel = lane.ring.contents.take count := by
  have hall : ∀ lane ∈ h.link.lanes, count ≤ lane.ring.length := by
    intro lane hmem
    rwa [(hs.mem hmem).1]
  rw [Buffer.samplesOf, block_channel hs.valid hlt hall, hlane, Option.map_some, Option.getD_some]

/-- What a read takes from a lane goes to the end of what was returned. -/
theorem Sound.drain_lane (hs : h.Sound channels room block level ops) {count : Nat}
    (hle : count ≤ level) (hlt : count < 2 ^ 32) (channel : Nat) (lane : Lane)
    (hlane : (h.link.drain count).lanes[channel]? = some lane) :
    lane.Accounts room (level - count) (ops.map Operation.offered).sum (.close ∈ ops)
      (h.accepted channel) (returned (h.results ++ [.ok (h.link.block count)]) channel) := by
  simp only [drain, List.getElem?_map, Option.map_eq_some_iff] at hlane
  obtain ⟨old, hold, rfl⟩ := hlane
  rw [returned_ok, hs.samplesOf_block hle hlt hold]
  exact (hs.lane channel old hold).drain count

/-- There are fewer blocks than words, since each takes a sample of every channel. -/
theorem Sound.blocks_lt (hs : h.Sound channels room block level ops) (hpos : 0 < level) :
    (blocks h.results).length + 1 < 2 ^ 64 := by
  have hchannels : 0 < channels := hs.channels_eq ▸ List.length_pos_iff.mpr hs.valid.lanes_ne
  obtain ⟨lane, hlane⟩ := hs.get hchannels
  have hlane' := hs.lane 0 lane hlane
  have hcount := hs.count 0 hchannels
  have hpushed := lane.counter.pushed.toNat_lt
  have htotal : (returned h.results 0).length + level = lane.counter.pushed.toNat := by
    rw [hlane'.pushed, ← hlane'.conserved, List.length_append, hlane'.level]
  omega

theorem read_block_sound (hs : h.Sound channels room block level ops) {count : Nat}
    (hpos : 0 < count) (hle : count ≤ level)
    (hsize : count = block ∨ .close ∈ ops ∧ count = level ∧ count < block) :
    Sound channels room block (level - count) ops
      { h with
        link := h.link.drain count
        results := h.results ++ [.ok (h.link.block count)] } := by
  have hblock := hs.valid.block_lt
  rw [hs.block_eq] at hblock
  have hlt : count < 2 ^ 32 := by omega
  have hword : (h.link.block count).samplesPerChannel.toNat = count :=
    UInt32.toNat_ofNat_of_lt' hlt
  have hlanes := hs.drain_lane hle hlt
  have hcount : (h.link.drain count).lanes.length = h.link.lanes.length := List.length_map _
  refine ⟨valid_of_lanes hs rfl hcount hlanes, hcount.trans hs.channels_eq, hs.block_eq, hlanes,
    ?_, ?_, ?_⟩
  · have := hs.blocks_lt (Nat.lt_of_lt_of_le hpos hle)
    have hone : (1 : UInt64).toNat = 1 := rfl
    rw [blocks_ok, List.length_append, List.length_singleton, drain, UInt64.toNat_add, hone,
      hs.sequence, Nat.mod_eq_of_lt this]
  · intro channel hchannel
    obtain ⟨lane, hlane⟩ := hs.get hchannel
    have := hs.count channel hchannel
    have htaken : ((h.link.block count).samplesOf channel).length = count := by
      rw [hs.samplesOf_block hle hlt hlane, List.length_take, (hs.lane channel lane hlane).level,
        Nat.min_eq_left hle]
    rw [blocks_ok, returned_ok, List.length_append, List.length_append, List.length_singleton]
    omega
  · apply hs.record.append_block (Nat.lt_of_lt_of_le hpos hle) hs.sequence
    rw [hword]
    rcases hsize with hfull | ⟨hclosed, hrest, hshort⟩
    · exact .inl hfull
    · exact .inr ⟨hshort, hclosed, by omega⟩

theorem read_error_sound (hs : h.Sound channels room block level ops) {e : ReadError}
    (he : e = .endOfStream ∨ e = .noData ∧ .close ∉ ops) :
    Sound channels room block level ops { h with results := h.results ++ [.error e] } where
  valid := hs.valid
  channels_eq := hs.channels_eq
  block_eq := hs.block_eq
  lane := by
    intro channel lane hlane
    rw [returned_error]
    exact hs.lane channel lane hlane
  sequence := by rw [blocks_error, hs.sequence]
  count := by
    intro channel hlt
    rw [blocks_error, returned_error]
    exact hs.count channel hlt
  record := hs.record.append_error he

/-- How a read of a link with this past ends. -/
theorem Sound.reads (hs : h.Sound channels room block level ops) :
    (∃ count, 0 < count ∧ count ≤ level ∧
      (count = block ∨ .close ∈ ops ∧ count = level ∧ count < block) ∧
      h.link.read = (.ok (h.link.block count), h.link.drain count)) ∨
    (.close ∉ ops ∧ level < block ∧ h.link.read = (.error .noData, h.link)) ∨
    (.close ∈ ops ∧ level = 0 ∧ h.link.read = (.error .endOfStream, h.link)) := by
  have hread := Link.reads hs.valid
  have hclosed := hs.allClosed
  generalize h.link.read = outcome at hread ⊢
  cases hread with
  | @block count hpos hall hsize =>
    have hle : count ≤ level := hs.available ▸ (le_available hs.valid.lanes_ne _).mpr hall
    rw [hs.block_eq, hs.available, hclosed] at hsize
    exact .inl ⟨count, hpos, hle, hsize, rfl⟩
  | noData hopen hshort =>
    rw [hs.block_eq, hs.available] at hshort
    have hnot : Operation.close ∉ ops := fun hmem => by rw [hclosed.mpr hmem] at hopen; cases hopen
    exact .inr (.inl ⟨hnot, hshort, rfl⟩)
  | endOfStream hall hnone =>
    rw [hs.available] at hnone
    exact .inr (.inr ⟨hclosed.mp hall, hnone, rfl⟩)

theorem Sound.reads_full (hs : h.Sound channels room block level ops) :
    (∃ b, h.link.read.1 = .ok b ∧ b.samplesPerChannel.toNat = block) ↔ block ≤ level := by
  have hlt := hs.block_eq ▸ hs.valid.block_lt
  have hpos := hs.block_eq ▸ hs.valid.block_pos
  rcases hs.reads with ⟨count, -, hle, hsize, hread⟩ | ⟨-, hshort, hread⟩ | ⟨-, hzero, hread⟩
  · have hword : (h.link.block count).samplesPerChannel.toNat = count :=
      UInt32.toNat_ofNat_of_lt' (Nat.lt_of_le_of_lt (by omega) hlt)
    rw [hread]
    constructor
    · rintro ⟨b, hb, hfull⟩
      cases hb
      omega
    · intro hroom
      exact ⟨_, rfl, by omega⟩
  · rw [hread]
    constructor
    · rintro ⟨b, hb, -⟩
      cases hb
    · intro hroom
      omega
  · rw [hread]
    constructor
    · rintro ⟨b, hb, -⟩
      cases hb
    · intro hroom
      omega

theorem Sound.reads_noData (hs : h.Sound channels room block level ops) :
    h.link.read.1 = .error .noData ↔ .close ∉ ops ∧ ¬block ≤ level := by
  rcases hs.reads with ⟨count, -, hle, hsize, hread⟩ | ⟨hopen, hshort, hread⟩ |
    ⟨hclosed, -, hread⟩
  · rw [hread]
    constructor
    · intro hend
      cases hend
    · rintro ⟨hopen, hshort⟩
      rcases hsize with hfull | ⟨hclosed, -⟩
      · omega
      · exact absurd hclosed hopen
  · rw [hread]
    exact ⟨fun _ => ⟨hopen, by omega⟩, fun _ => rfl⟩
  · rw [hread]
    constructor
    · intro hend
      cases hend
    · rintro ⟨hopen, -⟩
      exact absurd hclosed hopen

theorem Sound.reads_endOfStream (hs : h.Sound channels room block level ops) :
    h.link.read.1 = .error .endOfStream ↔ .close ∈ ops ∧ level = 0 := by
  rcases hs.reads with ⟨count, hpos, hle, -, hread⟩ | ⟨hopen, -, hread⟩ | ⟨hclosed, hzero, hread⟩
  · rw [hread]
    constructor
    · intro hend
      cases hend
    · rintro ⟨-, hzero⟩
      omega
  · rw [hread]
    constructor
    · intro hend
      cases hend
    · rintro ⟨hclosed, -⟩
      exact absurd hclosed hopen
  · rw [hread]
    exact ⟨fun _ => ⟨hclosed, hzero⟩, fun _ => rfl⟩

theorem read_sound (hs : h.Sound channels room block level ops) :
    ∃ level', (h.step .read).Sound channels room block level' ops := by
  rw [step]
  rcases hs.reads with ⟨count, hpos, hle, hsize, hread⟩ | ⟨hopen, -, hread⟩ | ⟨-, -, hread⟩
  · rw [hread]
    exact ⟨level - count, read_block_sound hs hpos hle hsize⟩
  · rw [hread]
    exact ⟨level, read_error_sound hs (.inr ⟨rfl, hopen⟩)⟩
  · rw [hread]
    exact ⟨level, read_error_sound hs (.inl rfl)⟩

/-- A read offers nothing and closes nothing. -/
theorem Sound.append_read (hs : h.Sound channels room block level ops) :
    h.Sound channels room block level (ops ++ [Operation.read]) := by
  have hops : (Operation.close ∈ ops ++ [Operation.read]) = (.close ∈ ops) := by simp
  have htotal : ((ops ++ [Operation.read]).map Operation.offered).sum =
      (ops.map Operation.offered).sum := by simp [Operation.offered]
  refine ⟨hs.valid, hs.channels_eq, hs.block_eq, ?_, hs.sequence, hs.count, ?_⟩
  · rw [htotal, hops]
    exact hs.lane
  · rw [hops]
    exact hs.record

end Steps

theorem run_append (h : History) (ops : List Operation) (op : Operation) :
    h.run (ops ++ [op]) = (h.run ops).step op := by
  simp [run]

/-- What every sequence of operations preserves, by induction from its end. -/
theorem run_sound (channels : UInt32) (capacity : Nat) (block : UInt32) (rate : Double)
    (ops : List Operation) (horder : Orderly ops)
    (hcomplete : ∀ b, .feed b ∈ ops → b.Complete (max channels.toNat 1))
    (hsmall : (ops.map Operation.offered).sum < 2 ^ 64) :
    ∃ level, Sound (max channels.toNat 1) (max capacity 1) (max block.toNat 1) level ops
      (run { link := Link.new channels capacity block rate } ops) := by
  induction ops using List.reverseRecOn with
  | nil => exact ⟨0, new_sound channels capacity block rate⟩
  | append_singleton ops op ih =>
    obtain ⟨horder, -, hlast⟩ := List.pairwise_append.mp horder
    rw [List.map_append, List.sum_append, List.map_singleton, List.sum_singleton] at hsmall
    obtain ⟨level, hs⟩ := ih horder
      (fun b hb => hcomplete b (List.mem_append_left _ hb)) (by omega)
    rw [run_append]
    cases op with
    | feed b =>
      have hopen : .close ∉ ops := fun hclose =>
        hlast _ hclose _ (List.mem_singleton_self _) rfl b rfl
      exact ⟨_, feed_sound hs (hcomplete b (by simp)) hopen hsmall⟩
    | read =>
      obtain ⟨level', hs'⟩ := read_sound hs
      exact ⟨level', hs'.append_read⟩
    | close => exact ⟨level, close_sound hs⟩

/-- What a link of `channels` rings promises after `ops`, with room for `room` samples in each ring
and `block` samples per channel in a block. -/
structure Delivers (channels room block : Nat) (ops : List Operation) (h : History) : Prop where
  /-- What was returned and what is still buffered is what was accepted, and the counters tell how
  much that is and how much was lost. -/
  conserved : ∀ channel < channels, ∃ lane, h.link.lanes[channel]? = some lane ∧
    returned h.results channel ++ lane.ring.contents = h.accepted channel ∧
    lane.counter.pushed.toNat + lane.counter.dropped.toNat = (ops.map Operation.offered).sum ∧
    lane.counter.pushed.toNat = (returned h.results channel).length + lane.ring.length
  /-- A ring accepts what it has room for. -/
  accepts : ∀ b, b.Complete channels → ∀ (channel : Nat) (lane : Lane),
    h.link.lanes[channel]? = some lane →
    h.link.accepts b channel = min b.samplesPerChannel.toNat (room - lane.ring.length)
  /-- The next read gives a full block exactly when every ring holds one. -/
  full : (∃ b, h.link.read.1 = .ok b ∧ b.samplesPerChannel.toNat = block) ↔
    ∀ lane ∈ h.link.lanes, block ≤ lane.ring.length
  noData : h.link.read.1 = .error .noData ↔
    .close ∉ ops ∧ ¬∀ lane ∈ h.link.lanes, block ≤ lane.ring.length
  endOfStream : h.link.read.1 = .error .endOfStream ↔
    .close ∈ ops ∧ ∀ lane ∈ h.link.lanes, lane.ring.length = 0
  /-- There are no other errors, and an error changes nothing. -/
  unchanged : ∀ e, h.link.read.1 = .error e →
    (e = .noData ∨ e = .endOfStream) ∧ h.link.read.2 = h.link
  numbered : (blocks h.results).map (·.sequence.toNat) = List.range (blocks h.results).length
  size : ∀ b ∈ blocks h.results, b.samplesPerChannel.toNat = block ∨
    b.samplesPerChannel.toNat < block ∧ .close ∈ ops
  /-- After a short block there is only the end of the stream. -/
  last : h.results.Pairwise fun result later => IsShort block result → later = .error .endOfStream
  answer : ∀ result ∈ h.results, (∃ b, result = .ok b) ∨ result = .error .noData ∨
    result = .error .endOfStream

theorem Sound.delivers {channels room block level : Nat} {ops : List Operation} {h : History}
    (hs : h.Sound channels room block level ops) : h.Delivers channels room block ops := by
  constructor
  case conserved =>
    intro channel hlt
    obtain ⟨lane, hlane⟩ := hs.get hlt
    have hlane' := hs.lane channel lane hlane
    refine ⟨lane, hlane, hlane'.conserved, hlane'.counted, ?_⟩
    rw [hlane'.pushed, ← hlane'.conserved, List.length_append, Ring.length_contents hlane'.valid]
  case accepts =>
    intro b hb channel lane hlane
    have hlt : channel < channels := hs.channels_eq ▸ (List.getElem?_eq_some_iff.mp hlane).1
    rw [hs.accepts hb hlt, (hs.lane channel lane hlane).length]
  case full => rw [hs.forall_length (block ≤ ·), hs.reads_full]
  case noData => rw [hs.forall_length (block ≤ ·), hs.reads_noData]
  case endOfStream => rw [hs.forall_length (· = 0), hs.reads_endOfStream]
  case unchanged =>
    intro e he
    rcases hs.reads with ⟨count, -, -, -, hread⟩ | ⟨-, -, hread⟩ | ⟨-, -, hread⟩
    · rw [hread] at he
      cases he
    · rw [hread] at he ⊢
      cases he
      exact ⟨.inl rfl, rfl⟩
    · rw [hread] at he ⊢
      cases he
      exact ⟨.inr rfl, rfl⟩
  case numbered => exact hs.record.numbered
  case size =>
    intro b hb
    exact (hs.record.size b hb).imp_right fun hshort => ⟨hshort.1, hshort.2.1⟩
  case last => exact hs.record.last
  case answer => exact hs.record.answer

/-- Any feeds and reads in any order, then a close and more reads: whatever blocks are fed, as long
as each has all channels and all together stay below the word size. -/
theorem run_delivers (channels : UInt32) (capacity : Nat) (block : UInt32) (rate : Double)
    (ops : List Operation) (horder : Orderly ops)
    (hcomplete : ∀ b, .feed b ∈ ops → b.Complete (max channels.toNat 1))
    (hsmall : (ops.map Operation.offered).sum < 2 ^ 64) :
    Delivers (max channels.toNat 1) (max capacity 1) (max block.toNat 1) ops
      (run { link := Link.new channels capacity block rate } ops) := by
  obtain ⟨level, hs⟩ := run_sound channels capacity block rate ops horder hcomplete hsmall
  exact hs.delivers

/-- Two rings for three samples: the second block is cut, and its rest comes in a short block once
the link is closed. -/
theorem run_delivers_pair :
    let first : Buffer :=
      { channels := 2, samplesPerChannel := 2, samples := [1, 2, 11, 12] }
    let second : Buffer :=
      { sequence := 1, channels := 2, samplesPerChannel := 2, samples := [3, 4, 13, 14] }
    let ops : List Operation := [.read, .feed first, .feed second, .read, .close, .read, .read]
    let h := run { link := Link.new 2 3 2 .zero } ops
    Delivers 2 3 2 ops h ∧
      h.results = [.error .noData, .ok first,
        .ok { second with samplesPerChannel := 1, samples := [3, 13] }, .error .endOfStream] := by
  intro first second ops h
  have horder : Orderly ops := by simp [Orderly, ops]
  have hcomplete : ∀ b, Operation.feed b ∈ ops → b.Complete 2 := by
    intro b hb
    simp only [ops, List.mem_cons, Operation.feed.injEq, reduceCtorEq, List.not_mem_nil, or_false,
      false_or] at hb
    rcases hb with rfl | rfl <;> decide +kernel
  have hsmall : (ops.map Operation.offered).sum < 2 ^ 64 := by decide
  exact ⟨run_delivers 2 3 2 .zero ops horder hcomplete hsmall, by decide +kernel⟩

end History

end Link

end Oscilloscope
