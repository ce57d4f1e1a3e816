import Mathlib.Algebra.GroupWithZero.Nat
import Oscilloscope.Proofs.Frame.Channels
import Oscilloscope.Proofs.Least
import Oscilloscope.Proofs.Ring.Contents
import Oscilloscope.Ring.Link

/-!
# Oscilloscope.Proofs.Ring.Lanes

The two ends of a link, told by what its lanes hold.

* `Lane.feed_spec`: what one step of the feeder does to the lane it writes into.
* `Link.feed_eq_steps`, `Link.close_eq_steps`: the feeder's operations are rows of their steps.
* `Link.Reads`, `Link.reads`: the three ways a read can end. There is no fourth: a read that has
  seen the fill levels finds what it has seen.
-/

namespace Oscilloscope

/-! ## Counters -/

/-- As long as the two counts together stay below the word size, they are exact. -/
theorem DropCounter.record_exact {c : DropCounter} {attempted : UInt32} {n : Nat}
    (hn : n ≤ attempted.toNat)
    (hsmall : c.pushed.toNat + c.dropped.toNat + attempted.toNat < 2 ^ 64) :
    (c.record attempted.toUInt64 (UInt64.ofNat n)).pushed.toNat = c.pushed.toNat + n ∧
      (c.record attempted.toUInt64 (UInt64.ofNat n)).dropped.toNat =
        c.dropped.toNat + (attempted.toNat - n) := by
  have hword : (UInt64.ofNat n).toNat = n :=
    UInt64.toNat_ofNat_of_lt' (by unfold UInt64.size; omega)
  have hattempted : attempted.toUInt64.toNat = attempted.toNat := UInt32.toNat_toUInt64 _
  unfold record
  constructor
  · rw [UInt64.toNat_add, hword, Nat.mod_eq_of_lt (by omega)]
  · by_cases hcut : UInt64.ofNat n < attempted.toUInt64
    · have hlt := UInt64.lt_iff_toNat_lt.mp hcut
      rw [if_pos hcut, UInt64.toNat_add, UInt64.toNat_sub_of_le _ _ (UInt64.le_of_lt hcut), hword,
        hattempted, Nat.mod_eq_of_lt (by omega)]
    · have hle := UInt64.le_iff_toNat_le.mp (UInt64.not_lt.mp hcut)
      rw [if_neg hcut]
      simp only
      omega

namespace Lane

variable {lane : Lane} {b : Buffer} {channel : Nat} {samples : List Sample}

/-- The feeder's step for channel `channel` of `b`, on its lane. -/
def feed (b : Buffer) (channel : Nat) (lane : Lane) : Lane :=
  match b.channel? channel with
  | none => lane
  | some samples => (Link.pushLane b.samplesPerChannel samples lane).2

theorem feed_of_some (h : b.channel? channel = some samples) :
    lane.feed b channel = (Link.pushLane b.samplesPerChannel samples lane).2 := by
  simp only [feed, h]

/-- A step of the feeder puts the prefix that fits behind what the ring holds, and counts it and
the rest. -/
theorem feed_spec (hring : lane.ring.Valid) (h : b.channel? channel = some samples) :
    (lane.feed b channel).ring.Valid ∧
      (lane.feed b channel).ring.contents = lane.ring.contents ++ samples.take lane.ring.free ∧
      (lane.feed b channel).ring.capacity = lane.ring.capacity ∧
      (lane.feed b channel).ring.closed = lane.ring.closed ∧
      (lane.feed b channel).counter = lane.counter.record b.samplesPerChannel.toUInt64
        (UInt64.ofNat (min samples.length lane.ring.free)) := by
  obtain ⟨r, hpush, hvalid, hcontents, hcapacity, hclosed⟩ := Ring.push_spec hring samples
  rw [feed_of_some h, Link.pushLane, hpush]
  exact ⟨hvalid, hcontents, hcapacity, hclosed, rfl⟩

/-- The lane after `count` samples have been taken from it. -/
def drain (count : Nat) (lane : Lane) : Lane := { lane with ring := (lane.ring.pop count).2 }

theorem drain_spec (hring : lane.ring.Valid) (count : Nat) :
    (lane.drain count).ring.Valid ∧
      (lane.drain count).ring.contents = lane.ring.contents.drop count ∧
      (lane.drain count).ring.capacity = lane.ring.capacity ∧
      (lane.drain count).ring.closed = lane.ring.closed := by
  obtain ⟨r, hpop, hvalid, hcontents, hcapacity, hclosed⟩ := Ring.pop_spec hring count
  rw [drain, hpop]
  exact ⟨hvalid, hcontents, hcapacity, hclosed⟩

theorem take_of_le (hring : lane.ring.Valid) {count : Nat} (hle : count ≤ lane.ring.length) :
    Link.takeLane count lane = (.ok (lane.ring.contents.take count), lane.drain count) := by
  obtain ⟨r, hpop, -⟩ := Ring.pop_spec hring count
  have hlen : (lane.ring.contents.take count).length = count := by
    rw [List.length_take, Ring.length_contents hring, Nat.min_eq_left hle]
  simp only [Link.takeLane, drain, hpop, if_pos hlen]

end Lane

namespace Link

variable {l : Link}

/-- The lanes have sound rings, and every size is one that the source's words can hold. -/
structure Valid (l : Link) : Prop where
  lanes_ne : l.lanes ≠ []
  lanes_lt : l.lanes.length < 2 ^ 32
  block_pos : 0 < l.blockLength
  block_lt : l.blockLength < 2 ^ 32
  ring : ∀ lane ∈ l.lanes, lane.ring.Valid

theorem new_lanes (channels : UInt32) (capacity : Nat) (block : UInt32) (rate : Double) :
    (new channels capacity block rate).lanes =
      List.replicate (max channels.toNat 1) { ring := Ring.new capacity 0 } :=
  List.map_replicate

theorem new_valid (channels : UInt32) (capacity : Nat) (block : UInt32) (rate : Double) :
    (new channels capacity block rate).Valid where
  lanes_ne := by
    rw [new_lanes]
    exact List.ne_nil_of_length_pos (by rw [List.length_replicate]; omega)
  lanes_lt := by
    have := channels.toNat_lt
    rw [new_lanes, List.length_replicate]
    omega
  block_pos := Nat.lt_of_lt_of_le Nat.one_pos (Nat.le_max_right _ _)
  block_lt := by
    have := block.toNat_lt
    simp only [new, ofRings]
    omega
  ring := by
    intro lane hlane
    rw [new_lanes] at hlane
    rw [List.eq_of_mem_replicate hlane]
    exact Ring.new_valid capacity 0

/-- Lanes may be changed one by one, as long as their rings stay sound. -/
theorem Valid.of_lanes (h : l.Valid) {l' : Link} (hblock : l'.blockLength = l.blockLength)
    (hlen : l'.lanes.length = l.lanes.length) (hring : ∀ lane ∈ l'.lanes, lane.ring.Valid) :
    l'.Valid where
  lanes_ne := by
    rw [← List.length_pos_iff, hlen, List.length_pos_iff]
    exact h.lanes_ne
  lanes_lt := hlen ▸ h.lanes_lt
  block_pos := hblock ▸ h.block_pos
  block_lt := hblock ▸ h.block_lt
  ring := hring

/-! ## Feeding -/

theorem feedLane_eq (l : Link) (b : Buffer) (channel : Nat) :
    l.feedLane b channel = { l with lanes := l.lanes.modify channel (Lane.feed b channel) } := by
  unfold feedLane Lane.feed
  cases b.channel? channel with
  | none =>
    have hid : l.lanes.modify channel (fun lane => lane) = l.lanes := List.modify_id channel l.lanes
    rw [hid]
  | some samples => rfl

/-- A block that lacks a channel lacks all that follow. -/
theorem feed_of_missing {b : Buffer} {channel : Nat} (h : b.channel? channel = none) (i : Nat) :
    Lane.feed b (channel + i) = id := by
  have hnone : b.channel? (channel + i) = none := by
    cases hsome : b.channel? (channel + i) with
    | none => rfl
    | some samples =>
      have hin := channelOf_of_le (Nat.le_add_right channel i) (Option.isSome_of_eq_some hsome)
      rw [show channelOf b.samples b.channels b.samplesPerChannel channel = none from h] at hin
      cases hin
  funext lane
  simp only [Lane.feed, hnone, id]

theorem feedLanes_get (b : Buffer) (channel : Nat) (lanes : List Lane) (i : Nat) :
    (feedLanes b channel lanes).2[i]? = lanes[i]?.map (Lane.feed b (channel + i)) := by
  induction lanes generalizing channel i with
  | nil => rfl
  | cons lane rest ih =>
    rw [feedLanes]
    cases h : b.channel? channel with
    | none => rw [feed_of_missing h, Option.map_id_fun, id]
    | some samples =>
      cases i with
      | zero => simp only [List.getElem?_cons_zero, Option.map_some, Nat.add_zero,
          Lane.feed_of_some h]
      | succ i =>
        simp only [List.getElem?_cons_succ]
        rw [ih, Nat.add_assoc, Nat.add_comm 1]

theorem feed_lanes (l : Link) (b : Buffer) :
    (l.feed b).2 = { l with lanes := l.lanes.mapIdx (Lane.feed b) } := by
  have hlanes : (feedLanes b 0 l.lanes).2 = l.lanes.mapIdx (Lane.feed b) := by
    apply List.ext_getElem?
    intro i
    rw [feedLanes_get, List.getElem?_mapIdx, Nat.zero_add]
  rw [feed, hlanes]

/-- Changing lane after lane changes each of them once. -/
theorem foldl_modify (l : Link) (f : Nat → Lane → Lane) (k : Nat) :
    (List.range k).foldl
        (fun l channel => { l with lanes := l.lanes.modify channel (f channel) }) l =
      { l with lanes := l.lanes.mapIdx fun i lane => if i < k then f i lane else lane } := by
  induction k with
  | zero =>
    have hid : (l.lanes.mapIdx fun i lane => if i < 0 then f i lane else lane) = l.lanes := by
      apply List.ext_getElem?
      intro i
      simp only [List.getElem?_mapIdx, Nat.not_lt_zero, if_false, Option.map_id_fun', id]
    rw [List.range_zero, List.foldl_nil, hid]
  | succ k ih =>
    rw [List.range_succ, List.foldl_append, ih, List.foldl_cons, List.foldl_nil]
    congr 1
    apply List.ext_getElem?
    intro i
    rw [List.getElem?_modify, List.getElem?_mapIdx, List.getElem?_mapIdx]
    cases l.lanes[i]? with
    | none => rfl
    | some lane =>
      by_cases hk : k = i
      · subst hk
        simp
      · by_cases hi : i < k
        · simp [hk, hi, Nat.lt_succ_of_lt hi]
        · simp [hk, hi, show ¬i < k + 1 by omega]

theorem foldl_lanes (l : Link) (f : Nat → Lane → Lane) :
    (List.range l.lanes.length).foldl
        (fun l channel => { l with lanes := l.lanes.modify channel (f channel) }) l =
      { l with lanes := l.lanes.mapIdx f } := by
  rw [foldl_modify]
  congr 1
  apply List.ext_getElem?
  intro i
  rw [List.getElem?_mapIdx, List.getElem?_mapIdx]
  cases hlane : l.lanes[i]? with
  | none => rfl
  | some lane =>
    obtain ⟨hi, -⟩ := List.getElem?_eq_some_iff.mp hlane
    simp [hi]

/-- Feeding a block is the row of its steps. -/
theorem feed_eq_steps (l : Link) (b : Buffer) :
    (l.feed b).2 = (List.range l.lanes.length).foldl (fun l channel => l.feedLane b channel) l := by
  simp only [feedLane_eq]
  rw [foldl_lanes, feed_lanes]

/-- Closing a link is the row of its steps. -/
theorem close_eq_steps (l : Link) :
    l.close = (List.range l.lanes.length).foldl closeLane l := by
  refine Eq.trans ?_ (foldl_lanes l fun _ lane => { lane with ring := lane.ring.close }).symm
  rw [close]
  congr 1
  apply List.ext_getElem?
  intro i
  rw [List.getElem?_map, List.getElem?_mapIdx]

/-- How many samples of a channel of `b` the ring of that channel would take. -/
def accepts (l : Link) (b : Buffer) (channel : Nat) : Nat :=
  match l.lanes[channel]? with
  | none => 0
  | some lane => (lane.ring.push (b.samplesOf channel)).1

/-! ## Reading -/

theorem available_eq (l : Link) : l.available = least (l.lanes.map (·.ring.length)) := by
  unfold available rings least
  cases l.lanes with
  | nil => rfl
  | cons lane rest => simp [Function.comp_def]

theorem le_available (hne : l.lanes ≠ []) (k : Nat) :
    k ≤ l.available ↔ ∀ lane ∈ l.lanes, k ≤ lane.ring.length := by
  rw [available_eq, le_least (by simpa using hne), List.forall_mem_map]

theorem takeLanes_of_le {count : Nat} {lanes : List Lane}
    (hring : ∀ lane ∈ lanes, lane.ring.Valid) (hle : ∀ lane ∈ lanes, count ≤ lane.ring.length) :
    takeLanes count lanes =
      (.ok (lanes.map fun lane => lane.ring.contents.take count).flatten,
        lanes.map (Lane.drain count)) := by
  induction lanes with
  | nil => rfl
  | cons lane rest ih =>
    rw [List.forall_mem_cons] at hring hle
    rw [takeLanes, Lane.take_of_le hring.1 hle.1, ih hring.2 hle.2]
    rfl

/-- The block of the `count` oldest samples of every lane. -/
def block (l : Link) (count : Nat) : Buffer where
  sequence := l.nextSequence
  channels := UInt32.ofNat l.lanes.length
  samplesPerChannel := UInt32.ofNat count
  samples := (l.lanes.map fun lane => lane.ring.contents.take count).flatten

/-- The link once that block has been taken. -/
def drain (l : Link) (count : Nat) : Link :=
  { l with lanes := l.lanes.map (Lane.drain count), nextSequence := l.nextSequence + 1 }

/-- How a read can end. -/
inductive Reads (l : Link) : Except ReadError Buffer × Link → Prop where
  /-- A full block, or what is left of a closed stream. -/
  | block {count : Nat} (pos : 0 < count) (le : ∀ lane ∈ l.lanes, count ≤ lane.ring.length)
      (size : count = l.blockLength ∨
        l.allClosed = true ∧ count = l.available ∧ count < l.blockLength) :
      Reads l (.ok (l.block count), l.drain count)
  | noData (isOpen : l.allClosed = false) (short : l.available < l.blockLength) :
      Reads l (.error .noData, l)
  | endOfStream (closed : l.allClosed = true) (none : l.available = 0) :
      Reads l (.error .endOfStream, l)

theorem read_of_plan (h : l.Valid) {count : Nat}
    (hplan : plan l.blockLength l.allClosed l.available = .ok count) (hle : count ≤ l.available) :
    l.read = (.ok (l.block count), l.drain count) := by
  have htake := takeLanes_of_le h.ring ((le_available h.lanes_ne count).mp hle)
  simp only [read, hplan, htake, block, drain, List.length_map]

theorem read_of_refusal {e : ReadError}
    (hplan : plan l.blockLength l.allClosed l.available = .error e) : l.read = (.error e, l) := by
  simp only [read, hplan]

theorem reads (h : l.Valid) : l.Reads l.read := by
  by_cases hfull : l.blockLength ≤ l.available
  · have hplan : plan l.blockLength l.allClosed l.available = .ok l.blockLength := if_pos hfull
    rw [read_of_plan h hplan hfull]
    exact .block h.block_pos ((le_available h.lanes_ne _).mp hfull) (.inl rfl)
  cases hclosed : l.allClosed with
  | false =>
    have hplan : plan l.blockLength l.allClosed l.available = .error .noData := by
      simp only [plan, hclosed, if_neg hfull, Bool.false_eq_true, if_false]
    rw [read_of_refusal hplan]
    exact .noData hclosed (by omega)
  | true =>
    by_cases hnone : l.available = 0
    · have hplan : plan l.blockLength l.allClosed l.available = .error .endOfStream := by
        rw [plan, if_neg hfull, if_pos hclosed, if_pos hnone]
      rw [read_of_refusal hplan]
      exact .endOfStream hclosed hnone
    · have hplan : plan l.blockLength l.allClosed l.available = .ok l.available := by
        rw [plan, if_neg hfull, if_pos hclosed, if_neg hnone]
      rw [read_of_plan h hplan (Nat.le_refl _)]
      exact .block (by omega) ((le_available h.lanes_ne _).mp (Nat.le_refl _))
        (.inr ⟨hclosed, rfl, by omega⟩)

/-- A channel of the block is what was taken from its lane. -/
theorem block_channel (h : l.Valid) {count : Nat} (hcount : count < 2 ^ 32)
    (hle : ∀ lane ∈ l.lanes, count ≤ lane.ring.length) (channel : Nat) :
    (l.block count).channel? channel =
      l.lanes[channel]?.map fun lane => lane.ring.contents.take count := by
  have hword : (UInt32.ofNat count).toNat = count := UInt32.toNat_ofNat_of_lt' hcount
  have hchannels : (UInt32.ofNat l.lanes.length).toNat = l.lanes.length :=
    UInt32.toNat_ofNat_of_lt' h.lanes_lt
  unfold Buffer.channel? block
  rw [channelOf_flatten, List.getElem?_map]
  · simp only [List.forall_mem_map]
    intro lane hlane
    rw [List.length_take, Ring.length_contents (h.ring lane hlane), hword,
      Nat.min_eq_left (hle lane hlane)]
  · rw [List.length_map, hchannels]

end Link

end Oscilloscope
