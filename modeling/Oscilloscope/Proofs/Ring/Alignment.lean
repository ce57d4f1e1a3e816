import Mathlib.Data.List.Induction
import Oscilloscope.Proofs.Ring.Lanes

/-!
# Oscilloscope.Proofs.Ring.Alignment

Whether the channels of a block that a read returns belong together.

The feeder writes ring after ring, and a read may come between two of its writes. `Exchange` runs
the two ends in any order of such steps and follows every sample: beside each ring stands the list
of the places, in the blocks that are fed, that its samples come from.

* `Lane.Holds`: the samples in a ring are those at the places beside it. `Exchange.step_sound` keeps
  this for all rings.
* `Exchange.Level`: apart from the block under way, all rings hold samples from the same places.
  `Exchange.step_level` keeps this as long as no block is divided.
* `Exchange.run_aligned`: a read returns samples from the same places in all channels, unless some
  block was both cut short by a full ring and parted by a read.
* `Exchange.run_misaligned`: that exception is real. A ring that was full before the read and one
  that is filled after it take different parts of such a block, and from then on they are shifted
  against each other.
-/

namespace Oscilloscope

/-- A place in what is fed: a block by its number, and a position in each of its channels. -/
structure Origin where
  block : Nat
  position : Nat
deriving DecidableEq

namespace Origin

/-- The sample of a channel at a place. -/
def sample? (fed : List Buffer) (channel : Nat) (o : Origin) : Option Sample :=
  fed[o.block]?.bind fun b => (b.samplesOf channel)[o.position]?

/-- The first `n` places of a block. -/
def leading (block n : Nat) : List Origin := (List.range n).map (Origin.mk block)

theorem leading_sample {fed : List Buffer} {block channel : Nat} {b : Buffer}
    (hb : fed[block]? = some b) (n : Nat) (hn : n ≤ (b.samplesOf channel).length) :
    (leading block n).map (sample? fed channel) = ((b.samplesOf channel).take n).map some := by
  apply List.ext_getElem?
  intro i
  rw [leading, List.map_map, List.getElem?_map, List.getElem?_map, List.getElem?_take]
  by_cases hi : i < n
  · rw [List.getElem?_range hi, if_pos hi]
    simp only [Option.map_some, Function.comp_apply, sample?, hb, Option.bind_some]
    rw [List.getElem?_eq_getElem (Nat.lt_of_lt_of_le hi hn), Option.map_some]
  · rw [if_neg hi, List.getElem?_eq_none (by rw [List.length_range]; omega)]
    rfl

end Origin

open Origin (leading)

/-! ## One lane -/

/-- The samples in the ring of `channel`, which has room for `room`, are those at `places`. -/
structure Lane.Holds (fed : List Buffer) (room channel : Nat) (places : List Origin)
    (lane : Lane) : Prop where
  valid : lane.ring.Valid
  capacity : lane.ring.capacity = room
  contents : lane.ring.contents.map some = places.map (·.sample? fed channel)

namespace Lane.Holds

variable {fed : List Buffer} {room channel : Nat} {places : List Origin} {lane : Lane}

theorem length (h : lane.Holds fed room channel places) : lane.ring.length = places.length := by
  have := congrArg List.length h.contents
  rwa [List.length_map, List.length_map, Ring.length_contents h.valid] at this

theorem free (h : lane.Holds fed room channel places) :
    lane.ring.free = room - places.length := by
  have := h.valid.length_add_free
  rw [h.length, h.capacity] at this
  omega

theorem feed (h : lane.Holds fed room channel places) {block channels : Nat} {b : Buffer}
    (hb : fed[block]? = some b) (hcomplete : b.Complete channels) (hlt : channel < channels) :
    (lane.feed b channel).Holds fed room channel
      (places ++ leading block (min b.samplesPerChannel.toNat (room - places.length))) := by
  have hlen := hcomplete.length hlt
  obtain ⟨hvalid, hcontents, hcapacity, -⟩ := feed_spec h.valid (hcomplete.channel_eq hlt)
  refine ⟨hvalid, hcapacity.trans h.capacity, ?_⟩
  rw [hcontents, List.map_append, List.map_append, h.contents,
    Origin.leading_sample hb _ (by omega), h.free, ← hlen, Nat.min_comm, ← List.take_eq_take_min]

theorem drain (h : lane.Holds fed room channel places) (count : Nat) :
    (lane.drain count).Holds fed room channel (places.drop count) := by
  obtain ⟨hvalid, hcontents, hcapacity, -⟩ := drain_spec h.valid count
  refine ⟨hvalid, hcapacity.trans h.capacity, ?_⟩
  rw [hcontents, List.map_drop, h.contents, List.map_drop]

theorem close (h : lane.Holds fed room channel places) :
    Lane.Holds fed room channel places { lane with ring := lane.ring.close } :=
  ⟨h.valid.close, h.capacity, h.contents⟩

end Lane.Holds

namespace Link

/-! ## The two ends, step by step -/

/-- A step of one of the two ends. -/
inductive Move where
  /-- The next write of the feeder: one channel of a block into its ring. -/
  | push
  /-- A whole read. -/
  | read
  /-- The feeder marks a ring as closed. -/
  | close (channel : Nat)

/-- A block that was read, and for each channel the places that its samples come from. -/
structure Traced where
  block : Buffer
  places : Nat → List Origin

/-- A link with the feeder's position in what it feeds. -/
structure Exchange where
  link : Link
  /-- The block that the feeder is about, and the channel that it writes next. -/
  block : Nat := 0
  channel : Nat := 0
  /-- For each channel, the places that the samples in its ring come from, oldest first. -/
  queued : Nat → List Origin := fun _ => []
  delivered : List Traced := []
  /-- The blocks that some ring did not take as a whole. -/
  cut : List Nat := []
  /-- The blocks with a read between their writes that took samples. -/
  parted : List Nat := []

namespace Exchange

/-- The feeder writes the next channel of its block, and after the last goes on to the next block. -/
def push (fed : List Buffer) (e : Exchange) : Exchange :=
  match fed[e.block]? with
  | none => e
  | some b =>
    let n := e.link.accepts b e.channel
    let more := e.channel + 1 < e.link.lanes.length
    { e with
      link := e.link.feedLane b e.channel
      block := if more then e.block else e.block + 1
      channel := if more then e.channel + 1 else 0
      queued := fun channel =>
        if channel = e.channel then e.queued channel ++ leading e.block n else e.queued channel
      cut := if n < b.samplesPerChannel.toNat then e.block :: e.cut else e.cut }

def read (e : Exchange) : Exchange :=
  match e.link.read with
  | (.error _, link) => { e with link }
  | (.ok b, link) =>
    let count := b.samplesPerChannel.toNat
    { e with
      link
      queued := fun channel => (e.queued channel).drop count
      delivered := e.delivered ++ [⟨b, fun channel => (e.queued channel).take count⟩]
      parted := if e.channel = 0 then e.parted else e.block :: e.parted }

def step (fed : List Buffer) (e : Exchange) : Move → Exchange
  | .push => e.push fed
  | .read => e.read
  | .close channel => { e with link := e.link.closeLane channel }

def run (fed : List Buffer) (e : Exchange) (moves : List Move) : Exchange :=
  moves.foldl (step fed) e

/-- Every channel of the block is made of the samples at the same places, in the same order. -/
def Aligned (fed : List Buffer) (channels : Nat) (t : Traced) : Prop :=
  ∃ places : List Origin, ∀ channel < channels, t.places channel = places ∧
    ∃ samples, t.block.channel? channel = some samples ∧
      samples.map some = places.map (·.sample? fed channel)

/-- No block was both cut short by a ring and parted by a read. -/
def Undivided (e : Exchange) : Prop := ∀ block ∈ e.cut, block ∉ e.parted

instance (e : Exchange) : Decidable e.Undivided :=
  inferInstanceAs (Decidable (∀ block ∈ e.cut, block ∉ e.parted))

/-- What is written beside the rings and the blocks is true. -/
structure Sound (fed : List Buffer) (channels room : Nat) (e : Exchange) : Prop where
  valid : e.link.Valid
  channels_eq : e.link.lanes.length = channels
  channel_lt : e.channel < channels
  lane : ∀ (channel : Nat) (lane : Lane), e.link.lanes[channel]? = some lane →
    lane.Holds fed room channel (e.queued channel)
  delivered : ∀ t ∈ e.delivered, ∀ channel < channels, ∃ samples,
    t.block.channel? channel = some samples ∧
      samples.map some = (t.places channel).map (·.sample? fed channel)

section Steps

variable {fed : List Buffer} {channels room : Nat} {e : Exchange}

theorem Sound.get (hs : e.Sound fed channels room) {channel : Nat} (hlt : channel < channels) :
    ∃ lane, e.link.lanes[channel]? = some lane :=
  ⟨_, List.getElem?_eq_getElem (hs.channels_eq ▸ hlt)⟩

theorem Sound.accepts (hs : e.Sound fed channels room) {b : Buffer} (hb : b.Complete channels) :
    e.link.accepts b e.channel =
      min b.samplesPerChannel.toNat (room - (e.queued e.channel).length) := by
  obtain ⟨lane, hlane⟩ := hs.get hs.channel_lt
  have hholds := hs.lane _ lane hlane
  simp only [Link.accepts, hlane, Ring.push_eq hholds.valid, hholds.free, hb.length hs.channel_lt]

theorem Sound.of_holds (hs : e.Sound fed channels room) {e' : Exchange}
    (hblock : e'.link.blockLength = e.link.blockLength)
    (hlen : e'.link.lanes.length = e.link.lanes.length) (hchannel : e'.channel < channels)
    (hlanes : ∀ (channel : Nat) (lane : Lane), e'.link.lanes[channel]? = some lane →
      lane.Holds fed room channel (e'.queued channel))
    (hdelivered : ∀ t ∈ e'.delivered, ∀ channel < channels, ∃ samples,
      t.block.channel? channel = some samples ∧
        samples.map some = (t.places channel).map (·.sample? fed channel)) :
    e'.Sound fed channels room where
  valid := by
    apply hs.valid.of_lanes hblock hlen
    intro lane hmem
    obtain ⟨channel, hlane⟩ := List.mem_iff_getElem?.mp hmem
    exact (hlanes channel lane hlane).valid
  channels_eq := hlen.trans hs.channels_eq
  channel_lt := hchannel
  lane := hlanes
  delivered := hdelivered

theorem push_sound (hs : e.Sound fed channels room) {b : Buffer} (hb : fed[e.block]? = some b)
    (hcomplete : b.Complete channels) : (e.push fed).Sound fed channels room := by
  have hpush := hs.accepts hcomplete
  simp only [push, hb]
  apply hs.of_holds
  · simp only [feedLane_eq]
  · simp only [feedLane_eq, List.length_modify]
  · simp only [hs.channels_eq]
    split
    · assumption
    · exact Nat.zero_lt_of_lt hs.channel_lt
  · intro channel lane hlane
    simp only [feedLane_eq, List.getElem?_modify] at hlane
    by_cases hsame : e.channel = channel
    · subst hsame
      simp only [if_pos, Option.map_eq_map, Option.map_eq_some_iff] at hlane
      obtain ⟨old, hold, rfl⟩ := hlane
      simp only [if_pos, hpush]
      exact (hs.lane _ old hold).feed hb hcomplete hs.channel_lt
    · simp only [if_neg hsame, Option.map_eq_map, Option.map_id_fun', id] at hlane
      simp only [if_neg (Ne.symm hsame)]
      exact hs.lane channel lane hlane
  · exact hs.delivered

/-- The state after a read that took `count` samples of every channel. -/
def taken (e : Exchange) (count : Nat) : Exchange :=
  { e with
    link := e.link.drain count
    queued := fun channel => (e.queued channel).drop count
    delivered := e.delivered ++ [⟨e.link.block count, fun channel => (e.queued channel).take count⟩]
    parted := if e.channel = 0 then e.parted else e.block :: e.parted }

theorem read_cases (hs : e.Sound fed channels room) :
    e.read = e ∨ ∃ count, count < 2 ^ 32 ∧ (∀ lane ∈ e.link.lanes, count ≤ lane.ring.length) ∧
      e.read = e.taken count := by
  have hread := reads hs.valid
  unfold read
  generalize e.link.read = outcome at hread ⊢
  cases hread with
  | @block count hpos hall hsize =>
    have hblock := hs.valid.block_lt
    have hlt : count < 2 ^ 32 := by omega
    have hword : (e.link.block count).samplesPerChannel.toNat = count :=
      UInt32.toNat_ofNat_of_lt' hlt
    refine .inr ⟨count, hlt, hall, ?_⟩
    simp only [hword, taken]
  | noData hopen hshort => exact .inl rfl
  | endOfStream hclosed hnone => exact .inl rfl

theorem read_sound (hs : e.Sound fed channels room) : e.read.Sound fed channels room := by
  rcases read_cases hs with hsame | ⟨count, hlt, hall, htaken⟩
  · rwa [hsame]
  rw [htaken]
  apply hs.of_holds
  · rfl
  · exact List.length_map _
  · exact hs.channel_lt
  · intro channel lane hlane
    simp only [taken, drain, List.getElem?_map, Option.map_eq_some_iff] at hlane
    obtain ⟨old, hold, rfl⟩ := hlane
    exact (hs.lane channel old hold).drain count
  · simp only [taken, List.forall_mem_append, List.forall_mem_singleton]
    refine ⟨hs.delivered, fun channel hchannel => ?_⟩
    obtain ⟨lane, hlane⟩ := hs.get hchannel
    refine ⟨lane.ring.contents.take count, ?_, ?_⟩
    · rw [block_channel hs.valid hlt hall, hlane, Option.map_some]
    · rw [List.map_take, (hs.lane channel lane hlane).contents, List.map_take]

theorem close_sound (hs : e.Sound fed channels room) (closing : Nat) :
    Sound fed channels room { e with link := e.link.closeLane closing } := by
  apply hs.of_holds
  · rfl
  · exact List.length_modify ..
  · exact hs.channel_lt
  · intro channel lane hlane
    simp only [closeLane, List.getElem?_modify] at hlane
    obtain ⟨old, hold, heq⟩ := Option.map_eq_some_iff.mp hlane
    split at heq
    · rw [← heq]
      exact (hs.lane channel old hold).close
    · rw [← heq]
      exact hs.lane channel old hold
  · exact hs.delivered

theorem step_sound (hs : e.Sound fed channels room) (hfed : ∀ b ∈ fed, b.Complete channels)
    (move : Move) : (e.step fed move).Sound fed channels room := by
  cases move with
  | push =>
    cases hb : fed[e.block]? with
    | none =>
      have hpush : e.push fed = e := by simp only [push, hb]
      rw [step, hpush]
      exact hs
    | some b => exact push_sound hs hb (hfed b (List.mem_of_getElem? hb))
  | read => exact read_sound hs
  | close channel => exact close_sound hs channel

/-! ## Rings in step with each other -/

/-- Apart from the block under way, all rings hold samples from `places`. Of that block, the rings
that the feeder has passed hold the first `n` places. -/
structure Level (fed : List Buffer) (channels room : Nat) (places : List Origin) (n : Nat)
    (e : Exchange) : Prop where
  passed : ∀ channel < e.channel, e.queued channel = places ++ leading e.block n
  ahead : ∀ channel, e.channel ≤ channel → channel < channels → e.queued channel = places
  size : 0 < e.channel → ∃ b, fed[e.block]? = some b ∧
    (e.block ∉ e.cut → n = b.samplesPerChannel.toNat) ∧
    (e.block ∉ e.parted → n = min b.samplesPerChannel.toNat (room - places.length))
  parted : ∀ block ∈ e.parted, block < e.block ∨ block = e.block ∧ 0 < e.channel
  delivered : ∀ t ∈ e.delivered, ∃ common, ∀ channel < channels, t.places channel = common

variable {places : List Origin} {n : Nat}

@[simp] theorem push_parted : (e.push fed).parted = e.parted := by
  unfold push
  split <;> rfl

@[simp] theorem push_delivered : (e.push fed).delivered = e.delivered := by
  unfold push
  split <;> rfl

/-- All rings take the same part of a block. If a read has parted it, every ring has taken it whole
up to now, and so does this one; otherwise the rings ahead still have the room that the others
had. -/
theorem Level.accepts (hl : e.Level fed channels room places n) (hs : e.Sound fed channels room)
    {b : Buffer} (hb : fed[e.block]? = some b) (hcomplete : b.Complete channels)
    (hwhole : (e.push fed).Undivided) (hpos : 0 < e.channel) :
    e.link.accepts b e.channel = n := by
  have hpush := hs.accepts hcomplete
  rw [hl.ahead _ (Nat.le_refl _) hs.channel_lt] at hpush
  obtain ⟨b', hb', hcut, hparted⟩ := hl.size hpos
  obtain rfl : b = b' := Option.some.inj (hb.symm.trans hb')
  by_cases hmem : e.block ∈ e.parted
  · have huncut : e.block ∉ (e.push fed).cut := by
      intro hin
      refine hwhole _ hin ?_
      rwa [push_parted]
    simp only [push, hb] at huncut
    split at huncut
    · exact absurd List.mem_cons_self huncut
    · have := hcut huncut
      omega
  · rw [hpush, hparted hmem]

section Push

variable {b : Buffer} (hl : e.Level fed channels room places n) (hs : e.Sound fed channels room)
  (hb : fed[e.block]? = some b) (hcomplete : b.Complete channels)
  (hwhole : (e.push fed).Undivided)

include hl hs hb hcomplete hwhole

theorem Level.push_passed : ∀ channel ≤ e.channel, (e.push fed).queued channel =
    places ++ leading e.block (e.link.accepts b e.channel) := by
  intro channel hle
  simp only [push, hb]
  by_cases heq : channel = e.channel
  · rw [if_pos heq, heq, hl.ahead _ (Nat.le_refl _) hs.channel_lt]
  · rw [if_neg heq, hl.passed channel (by omega),
      hl.accepts hs hb hcomplete hwhole (by omega)]

/-- A write into a ring that is not the last leaves the feeder in its block. -/
theorem Level.push_inside (hmore : e.channel + 1 < channels) :
    (e.push fed).Level fed channels room places (e.link.accepts b e.channel) := by
  rw [← hs.channels_eq] at hmore
  have hblock : (e.push fed).block = e.block := by simp only [push, hb, if_pos hmore]
  have hchannel : (e.push fed).channel = e.channel + 1 := by simp only [push, hb, if_pos hmore]
  have hsize := hs.accepts hcomplete
  rw [hl.ahead _ (Nat.le_refl _) hs.channel_lt] at hsize
  constructor
  case passed =>
    rw [hchannel, hblock]
    intro channel hlt
    exact hl.push_passed hs hb hcomplete hwhole channel (by omega)
  case ahead =>
    rw [hchannel]
    intro channel hge hlt
    simp only [push, hb]
    rw [if_neg (by omega), hl.ahead channel (by omega) hlt]
  case size =>
    rw [hblock]
    refine fun _ => ⟨b, hb, ?_, fun _ => hsize⟩
    simp only [push, hb]
    intro huncut
    split at huncut
    · exact absurd List.mem_cons_self huncut
    · omega
  case parted =>
    rw [push_parted, hblock, hchannel]
    intro block hmem
    have := hl.parted block hmem
    omega
  case delivered => rw [push_delivered]; exact hl.delivered

/-- With the write into the last ring, all rings hold the same part of the block. -/
theorem Level.push_last (hlast : ¬e.channel + 1 < channels) :
    (e.push fed).Level fed channels room
      (places ++ leading e.block (e.link.accepts b e.channel)) 0 := by
  have hmore := hlast
  rw [← hs.channels_eq] at hmore
  have hblock : (e.push fed).block = e.block + 1 := by simp only [push, hb, if_neg hmore]
  have hchannel : (e.push fed).channel = 0 := by simp only [push, hb, if_neg hmore]
  constructor
  case passed =>
    rw [hchannel]
    intro channel hlt
    omega
  case ahead =>
    intro channel _ hlt
    exact hl.push_passed hs hb hcomplete hwhole channel (by omega)
  case size =>
    rw [hchannel]
    intro hpos
    omega
  case parted =>
    rw [push_parted, hblock]
    intro block hmem
    have := hl.parted block hmem
    omega
  case delivered => rw [push_delivered]; exact hl.delivered

theorem push_level : ∃ places' n', (e.push fed).Level fed channels room places' n' := by
  by_cases hmore : e.channel + 1 < channels
  · exact ⟨_, _, hl.push_inside hs hb hcomplete hwhole hmore⟩
  · exact ⟨_, _, hl.push_last hs hb hcomplete hwhole hmore⟩

end Push

/-- A read takes from the common places only. -/
theorem Level.taken (hl : e.Level fed channels room places n) {count : Nat}
    (hle : count ≤ places.length) :
    (e.taken count).Level fed channels room (places.drop count) n := by
  constructor
  case passed =>
    intro channel hlt
    simp only [Exchange.taken]
    rw [hl.passed channel hlt, List.drop_append_of_le_length hle]
  case ahead =>
    intro channel hge hlt
    simp only [Exchange.taken]
    rw [hl.ahead channel hge hlt]
  case size =>
    intro hpos
    obtain ⟨b, hb, hcut, -⟩ := hl.size hpos
    -- The read parts the block, so that nothing is left to show about the room for it.
    refine ⟨b, hb, hcut, fun hnot => absurd ?_ hnot⟩
    have hne : e.channel ≠ 0 := Nat.ne_of_gt hpos
    simp only [Exchange.taken, if_neg hne]
    exact List.mem_cons_self
  case parted =>
    intro block hmem
    simp only [Exchange.taken] at hmem ⊢
    split at hmem
    · exact hl.parted block hmem
    · rcases List.mem_cons.mp hmem with rfl | hold
      · exact .inr ⟨rfl, by omega⟩
      · exact hl.parted block hold
  case delivered =>
    simp only [Exchange.taken, List.forall_mem_append, List.forall_mem_singleton]
    refine ⟨hl.delivered, places.take count, fun channel hchannel => ?_⟩
    by_cases hpassed : channel < e.channel
    · rw [hl.passed channel hpassed, List.take_append_of_le_length hle]
    · rw [hl.ahead channel (by omega) hchannel]

theorem read_level (hl : e.Level fed channels room places n) (hs : e.Sound fed channels room) :
    ∃ places' n', e.read.Level fed channels room places' n' := by
  rcases read_cases hs with hsame | ⟨count, hlt, hall, htaken⟩
  · rw [hsame]
    exact ⟨places, n, hl⟩
  · rw [htaken]
    -- The ring that the feeder is about holds nothing of the block under way.
    obtain ⟨lane, hlane⟩ := hs.get hs.channel_lt
    have hle := hall lane (List.mem_of_getElem? hlane)
    rw [(hs.lane _ lane hlane).length, hl.ahead _ (Nat.le_refl _) hs.channel_lt] at hle
    exact ⟨places.drop count, n, hl.taken hle⟩

theorem undivided_of_step {move : Move} (h : (e.step fed move).Undivided) : e.Undivided := by
  intro block hcut hparted
  cases move with
  | push =>
    cases hb : fed[e.block]? with
    | none =>
      simp only [step, push, hb] at h
      exact h block hcut hparted
    | some b =>
      refine h block ?_ ?_
      · simp only [step, push, hb]
        split
        · exact List.mem_cons_of_mem _ hcut
        · exact hcut
      · rwa [step, push_parted]
  | read =>
    rcases hread : e.link.read with ⟨_ | b, link⟩
    · simp only [step, read, hread] at h
      exact h block hcut hparted
    · refine h block ?_ ?_
      · simpa only [step, read, hread] using hcut
      · simp only [step, read, hread]
        split
        · exact hparted
        · exact List.mem_cons_of_mem _ hparted
  | close channel => exact h block hcut hparted

theorem step_level (hs : e.Sound fed channels room) (hfed : ∀ b ∈ fed, b.Complete channels)
    (hl : e.Level fed channels room places n) {move : Move}
    (hwhole : (e.step fed move).Undivided) :
    ∃ places' n', (e.step fed move).Level fed channels room places' n' := by
  cases move with
  | push =>
    cases hb : fed[e.block]? with
    | none =>
      have hpush : e.push fed = e := by simp only [push, hb]
      rw [step, hpush]
      exact ⟨places, n, hl⟩
    | some b => exact push_level hl hs hb (hfed b (List.mem_of_getElem? hb)) hwhole
  | read => exact read_level hl hs
  | close channel => exact ⟨places, n, hl.passed, hl.ahead, hl.size, hl.parted, hl.delivered⟩

end Steps

/-! ## Runs -/

theorem new_sound (fed : List Buffer) (channels : UInt32) (capacity : Nat) (block : UInt32)
    (rate : Double) :
    Sound fed (max channels.toNat 1) (max capacity 1)
      { link := Link.new channels capacity block rate } where
  valid := new_valid channels capacity block rate
  channels_eq := by rw [new_lanes, List.length_replicate]
  channel_lt := Nat.lt_of_lt_of_le Nat.one_pos (Nat.le_max_right _ _)
  lane := by
    intro channel lane hlane
    rw [new_lanes] at hlane
    rw [List.eq_of_mem_replicate (List.mem_of_getElem? hlane)]
    exact ⟨Ring.new_valid capacity 0, Ring.capacity_new capacity 0, by rw [Ring.contents_new]; rfl⟩
  delivered := by simp

theorem new_level (fed : List Buffer) (channels room : Nat) (l : Link) :
    Level fed channels room [] 0 { link := l } :=
  ⟨by simp, by simp, by simp, by simp, by simp⟩

theorem run_append (fed : List Buffer) (e : Exchange) (moves : List Move) (move : Move) :
    e.run fed (moves ++ [move]) = (e.run fed moves).step fed move := by
  simp [run]

section Runs

variable {fed : List Buffer} {channels room : Nat} {e : Exchange}

theorem run_sound (hs : e.Sound fed channels room) (hfed : ∀ b ∈ fed, b.Complete channels)
    (moves : List Move) : (e.run fed moves).Sound fed channels room := by
  induction moves using List.reverseRecOn with
  | nil => exact hs
  | append_singleton moves move ih =>
    rw [run_append]
    exact step_sound ih hfed move

theorem run_level (hs : e.Sound fed channels room) (hfed : ∀ b ∈ fed, b.Complete channels)
    {places : List Origin} {n : Nat} (hl : e.Level fed channels room places n) (moves : List Move)
    (hwhole : (e.run fed moves).Undivided) :
    ∃ places' n', (e.run fed moves).Level fed channels room places' n' := by
  induction moves using List.reverseRecOn with
  | nil => exact ⟨places, n, hl⟩
  | append_singleton moves move ih =>
    rw [run_append] at hwhole ⊢
    obtain ⟨places', n', hlevel⟩ := ih (undivided_of_step hwhole)
    exact step_level (run_sound hs hfed moves) hfed hlevel hwhole

end Runs

/-- Whatever is fed and in whatever order the two ends take their steps: as long as no block is both
cut short by a full ring and parted by a read, all channels of a block that is read come from the
same places. -/
theorem run_aligned (channels : UInt32) (capacity : Nat) (block : UInt32) (rate : Double)
    (fed : List Buffer) (hfed : ∀ b ∈ fed, b.Complete (max channels.toNat 1)) (moves : List Move)
    (hwhole : (run fed { link := Link.new channels capacity block rate } moves).Undivided) :
    ∀ t ∈ (run fed { link := Link.new channels capacity block rate } moves).delivered,
      Aligned fed (max channels.toNat 1) t := by
  intro t ht
  have hnew := new_sound fed channels capacity block rate
  have hs := run_sound hnew hfed moves
  obtain ⟨places, n, hl⟩ := run_level hnew hfed (new_level fed _ _ _) moves hwhole
  obtain ⟨common, hcommon⟩ := hl.delivered t ht
  refine ⟨common, fun channel hlt => ⟨hcommon channel hlt, ?_⟩⟩
  obtain ⟨samples, hsome, hsamples⟩ := hs.delivered t ht channel hlt
  exact ⟨samples, hsome, by rw [hsamples, hcommon channel hlt]⟩

/-- The first block is cut, and a read parts the second. -/
theorem run_aligned_pair :
    let fed : List Buffer :=
      [{ channels := 2, samplesPerChannel := 3, samples := [1, 2, 3, 11, 12, 13] },
        { sequence := 1, channels := 2, samplesPerChannel := 1, samples := [4, 14] }]
    let moves : List Move := [.push, .push, .read, .push, .read, .push, .read]
    let e := run fed { link := Link.new 2 2 1 .zero } moves
    e.cut = [0, 0] ∧ e.parted = [1] ∧
      e.delivered.map (·.block.samples) = [[1, 11], [2, 12], [4, 14]] ∧
      ∀ t ∈ e.delivered, Aligned fed 2 t := by
  intro fed moves e
  have hfed : ∀ b ∈ fed, b.Complete 2 := by decide +kernel
  have hwhole : e.Undivided := by decide +kernel
  exact ⟨by decide +kernel, by decide +kernel, by decide +kernel,
    run_aligned 2 2 1 .zero fed hfed moves hwhole⟩

/-- The second block finds the first ring full, and before it comes to the second ring a read makes
room there. The third block fills the first ring, so that the two rings hold one sample each, of
different blocks. -/
theorem run_misaligned :
    let fed : List Buffer :=
      [{ channels := 2, samplesPerChannel := 1, samples := [1, 11] },
        { sequence := 1, channels := 2, samplesPerChannel := 1, samples := [2, 12] },
        { sequence := 2, channels := 2, samplesPerChannel := 1, samples := [3, 13] }]
    let moves : List Move := [.push, .push, .push, .read, .push, .push, .push, .read]
    let e := run fed { link := Link.new 2 1 1 .zero } moves
    (∀ b ∈ fed, b.Complete 2) ∧ e.delivered.map (·.block.samples) = [[1, 11], [3, 12]] ∧
      ¬∀ t ∈ e.delivered, Aligned fed 2 t := by
  intro fed moves e
  refine ⟨by decide +kernel, by decide +kernel, fun hall => ?_⟩
  have hsecond : e.delivered[1]?.map (fun t => (t.places 0, t.places 1)) =
      some ([⟨2, 0⟩], [⟨1, 0⟩]) := by decide +kernel
  obtain ⟨t, ht, hplaces⟩ := Option.map_eq_some_iff.mp hsecond
  obtain ⟨places, hplace⟩ := hall t (List.mem_of_getElem? ht)
  have hsame : t.places 0 = t.places 1 :=
    (hplace 0 (by decide)).1.trans (hplace 1 (by decide)).1.symm
  rw [Prod.mk.injEq] at hplaces
  rw [hplaces.1, hplaces.2] at hsame
  exact absurd hsame (by decide)

end Exchange

end Link

end Oscilloscope
