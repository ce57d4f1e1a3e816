import Oscilloscope.Proofs.Ring.Handover

/-!
# Oscilloscope.Proofs.Ring.EndOfStream

Nothing is lost when a stream ends, in whatever order the two ends of a link access the rings.

The closed marks are tested before the fill levels are read, and they are set after the last write.
So a reader that has found all rings closed reads levels that are final. As no ring has overflowed,
they are also equal, and the least of them is all that is left.

* `Handover.Sound`: what every access preserves. Of each channel, what was returned, what is in the
  reader's hand, what its ring holds and what the feeder still has make up what is fed.
* `Reading.Agrees`: what the reader knows about the rings, wherever it stands in a read.
* `Handover.run_returns_all`: blocks are full up to the last one, and the end of the stream is
  reported after the last sample only.
-/

namespace Oscilloscope

namespace Link

open History (blocks returned)

/-- The feeder writes no more samples. -/
def OnlyCloses (writes : List Write) : Prop := ∀ w ∈ writes, w.isPush = false

/-- Complete blocks give every channel the same number of samples. -/
theorem length_samples {channels channel : Nat} {bs : List Buffer}
    (h : ∀ b ∈ bs, b.Complete channels) (hlt : channel < channels) :
    (bs.flatMap (·.samplesOf channel)).length = (bs.map (·.samplesPerChannel.toNat)).sum := by
  rw [List.length_flatMap]
  congr 1
  exact List.map_congr_left fun b hb => (h b hb).length hlt

/-! ## What the feeder does to the rings -/

/-- Behind the contents of each ring there stands what was `added` to it, and no closed mark has
gone away. -/
structure Grown (l l' : Link) (added : Nat → List Sample) : Prop where
  block_eq : l'.blockLength = l.blockLength
  length_eq : l'.lanes.length = l.lanes.length
  lane : ∀ (i : Nat) (lane' : Lane), l'.lanes[i]? = some lane' →
    ∃ lane, l.lanes[i]? = some lane ∧ lane'.ring.Valid ∧
      (lane.ring.closed = true → lane'.ring.closed = true) ∧
      lane'.ring.contents = lane.ring.contents ++ added i

section Feeding

variable {l : Link} {channel : Nat}

theorem closeLane_grown (h : l.Valid) (channel : Nat) :
    Grown l (l.closeLane channel) fun _ => [] where
  block_eq := rfl
  length_eq := by simp [closeLane]
  lane := by
    intro i lane' hlane'
    simp only [closeLane, List.getElem?_modify] at hlane'
    obtain ⟨lane, hlane, heq⟩ := Option.map_eq_some_iff.mp hlane'
    have hvalid := h.ring lane (List.mem_of_getElem? hlane)
    refine ⟨lane, hlane, ?_⟩
    rw [List.append_nil]
    split at heq
    · rw [← heq]
      exact ⟨hvalid.close, fun _ => rfl, rfl⟩
    · rw [← heq]
      exact ⟨hvalid, id, rfl⟩

/-- A ring with room takes all that is offered. -/
theorem feedLane_grown (h : l.Valid) {channels : Nat} {b : Buffer} (hb : b.Complete channels)
    (hlt : channel < channels) (hroom : b.samplesPerChannel.toNat ≤ l.accepts b channel) :
    Grown l (l.feedLane b channel) fun i => if channel = i then b.samplesOf i else [] where
  block_eq := by simp [feedLane_eq]
  length_eq := by simp [feedLane_eq]
  lane := by
    intro i lane' hlane'
    simp only [feedLane_eq, List.getElem?_modify] at hlane'
    obtain ⟨lane, hlane, heq⟩ := Option.map_eq_some_iff.mp hlane'
    have hvalid := h.ring lane (List.mem_of_getElem? hlane)
    refine ⟨lane, hlane, ?_⟩
    by_cases hi : channel = i
    · subst hi
      have hfits : (b.samplesOf channel).length ≤ lane.ring.free := by
        simp only [accepts, hlane, Ring.push_eq hvalid] at hroom
        rw [hb.length hlt] at hroom ⊢
        omega
      obtain ⟨hvalid', hcontents, -, hclosed, -⟩ := Lane.feed_spec hvalid (hb.channel_eq hlt)
      rw [List.take_of_length_le hfits] at hcontents
      rw [if_pos rfl] at heq ⊢
      rw [← heq]
      exact ⟨hvalid', fun hc => hclosed.trans hc, hcontents⟩
    · rw [if_neg hi] at heq ⊢
      rw [← heq, List.append_nil]
      exact ⟨hvalid, id, rfl⟩

end Feeding

/-! ## The reader -/

/-- The lane that has been set, or another one as it was. -/
theorem getElem?_set_cases {lanes : List Lane} {n i : Nat} {lane lane' : Lane}
    (hlt : n < lanes.length) (h : (lanes.set n lane)[i]? = some lane') :
    i = n ∧ lane' = lane ∨ i ≠ n ∧ lanes[i]? = some lane' := by
  by_cases hi : i = n
  · subst hi
    rw [List.getElem?_set_self hlt] at h
    exact .inl ⟨rfl, (Option.some.inj h).symm⟩
  · rw [List.getElem?_set_ne (Ne.symm hi)] at h
    exact .inr ⟨hi, h⟩

namespace Reading

/-- What the reader has taken from the ring of a channel for the block under way. -/
def inHand (channel : Nat) : Reading → List Sample
  | .taking _ parts => parts[channel]?.getD []
  | _ => []

/-- What the reader has seen is still true. -/
def Agrees (l : Link) (pending : List Write) : Reading → Prop
  | .testing channel =>
    ∀ i < channel, ∀ lane : Lane, l.lanes[i]? = some lane → lane.ring.closed = true
  | .measuring closed levels =>
    levels.length ≤ l.lanes.length ∧ (closed = true → OnlyCloses pending) ∧
      ∀ (i level : Nat) (lane : Lane), levels[i]? = some level → l.lanes[i]? = some lane →
        level ≤ lane.ring.length ∧ (closed = true → level = lane.ring.length)
  | .taking count parts =>
    parts.length ≤ l.lanes.length ∧ 0 < count ∧ (∀ part ∈ parts, part.length = count) ∧
      (∀ (i : Nat) (lane : Lane), l.lanes[i]? = some lane → parts.length ≤ i →
        count ≤ lane.ring.length) ∧
      (count = l.blockLength ∨ count < l.blockLength ∧ OnlyCloses pending ∧
        ∀ (i : Nat) (lane : Lane), l.lanes[i]? = some lane →
          lane.ring.length = if i < parts.length then 0 else count)

/-- Whatever the feeder does, no mark goes away and no level falls; and when nothing is left to
write, no level rises. -/
theorem Agrees.of_grown {l l' : Link} {pending pending' : List Write} {reading : Reading}
    {added : Nat → List Sample} (h : reading.Agrees l pending) (hvalid : l.Valid)
    (hg : Grown l l' added) (honly : OnlyCloses pending → OnlyCloses pending')
    (hadded : OnlyCloses pending → ∀ i, added i = []) : reading.Agrees l' pending' := by
  have hlevel : ∀ (i : Nat) (lane' : Lane), l'.lanes[i]? = some lane' →
      ∃ lane, l.lanes[i]? = some lane ∧ lane.ring.length ≤ lane'.ring.length ∧
        (OnlyCloses pending → lane'.ring.length = lane.ring.length) := by
    intro i lane' hlane'
    obtain ⟨lane, hlane, hvalid', -, hcontents⟩ := hg.lane i lane' hlane'
    have hlen := congrArg List.length hcontents
    rw [List.length_append, Ring.length_contents hvalid',
      Ring.length_contents (hvalid.ring lane (List.mem_of_getElem? hlane))] at hlen
    refine ⟨lane, hlane, by omega, fun hdone => ?_⟩
    rw [hlen, hadded hdone, List.length_nil, Nat.add_zero]
  cases reading with
  | testing channel =>
    intro i hi lane' hlane'
    obtain ⟨lane, hlane, -, hclosed, -⟩ := hg.lane i lane' hlane'
    exact hclosed (h i hi lane hlane)
  | measuring closed levels =>
    obtain ⟨hle, hdone, hlevels⟩ := h
    refine ⟨hg.length_eq ▸ hle, fun hc => honly (hdone hc), ?_⟩
    intro i level lane' hi hlane'
    obtain ⟨lane, hlane, hgrow, hsame⟩ := hlevel i lane' hlane'
    obtain ⟨hlow, hexact⟩ := hlevels i level lane hi hlane
    refine ⟨Nat.le_trans hlow hgrow, fun hc => ?_⟩
    rw [hsame (hdone hc), hexact hc]
  | taking count parts =>
    obtain ⟨hle, hpos, hparts, hahead, hsize⟩ := h
    refine ⟨hg.length_eq ▸ hle, hpos, hparts, ?_, ?_⟩
    · intro i lane' hlane' hi
      obtain ⟨lane, hlane, hgrow, -⟩ := hlevel i lane' hlane'
      exact Nat.le_trans (hahead i lane hlane hi) hgrow
    · rw [hg.block_eq]
      rcases hsize with hfull | ⟨hshort, hdone, hrest⟩
      · exact .inl hfull
      · refine .inr ⟨hshort, honly hdone, ?_⟩
        intro i lane' hlane'
        obtain ⟨lane, hlane, -, hsame⟩ := hlevel i lane' hlane'
        rw [hsame hdone, hrest i lane hlane]

/-- When a part has been taken from the next ring, the others still have theirs. -/
theorem Agrees.take {l : Link} {pending : List Write} {count : Nat} {parts : List (List Sample)}
    {lane : Lane} (h : (taking count parts).Agrees l pending) (hvalid : l.Valid)
    (hlane : l.lanes[parts.length]? = some lane) :
    (taking count (parts ++ [lane.ring.contents.take count])).Agrees
      { l with lanes := l.lanes.set parts.length (lane.drain count) } pending := by
  obtain ⟨-, hpos, hparts, hahead, hsize⟩ := h
  have hlt := (List.getElem?_eq_some_iff.mp hlane).1
  have hring := hvalid.ring lane (List.mem_of_getElem? hlane)
  obtain ⟨hring', hcontents, -⟩ := Lane.drain_spec hring count
  have hlength : (lane.drain count).ring.length = lane.ring.length - count := by
    rw [← Ring.length_contents hring', hcontents, List.length_drop, Ring.length_contents hring]
  refine ⟨?_, hpos, ?_, ?_, ?_⟩
  · rw [List.length_append, List.length_set]
    exact hlt
  · rw [List.forall_mem_append, List.forall_mem_singleton]
    refine ⟨hparts, ?_⟩
    rw [List.length_take, Ring.length_contents hring,
      Nat.min_eq_left (hahead _ lane hlane (Nat.le_refl _))]
  · intro i lane' hlane' hi
    rw [List.length_append, List.length_singleton] at hi
    rcases getElem?_set_cases hlt hlane' with ⟨rfl, -⟩ | ⟨-, hold⟩
    · omega
    · exact hahead i lane' hold (by omega)
  · rcases hsize with hfull | ⟨hshort, hdone, hrest⟩
    · exact .inl hfull
    · refine .inr ⟨hshort, hdone, ?_⟩
      intro i lane' hlane'
      rw [List.length_append, List.length_singleton]
      rcases getElem?_set_cases hlt hlane' with ⟨rfl, rfl⟩ | ⟨hi, hold⟩
      · rw [hlength, hrest _ lane hlane, if_neg (Nat.lt_irrefl _), if_pos (Nat.lt_succ_self _),
          Nat.sub_self]
      · rw [hrest i lane' hold]
        by_cases hlow : i < parts.length
        · rw [if_pos hlow, if_pos (by omega)]
        · rw [if_neg hlow, if_neg (by omega)]

end Reading

namespace Handover

/-! ## What every access preserves -/

/-- A read has reported the end of the stream, or has given a block that is not full. -/
def Ended (block : Nat) (results : List (Except ReadError Buffer)) : Prop :=
  .error .endOfStream ∈ results ∨ ∃ b ∈ blocks results, b.samplesPerChannel.toNat < block

/-- There is nothing left to read. -/
structure Drained (h : Handover) : Prop where
  pending : OnlyCloses h.pending
  empty : ∀ lane ∈ h.link.lanes, lane.ring.length = 0
  idle : ∀ count parts, h.reading ≠ .taking count parts

theorem Drained.inHand {h : Handover} (hd : h.Drained) (channel : Nat) :
    h.reading.inHand channel = [] := by
  cases hreading : h.reading with
  | testing next => rfl
  | measuring closed levels => rfl
  | taking count parts => exact absurd hreading (hd.idle count parts)

/-- A block of the right form. -/
structure Whole (channels block : Nat) (b : Buffer) : Prop where
  complete : b.Complete channels
  channels_eq : b.channels.toNat = channels
  pos : 0 < b.samplesPerChannel.toNat
  le : b.samplesPerChannel.toNat ≤ block

structure Sound (fed : List Buffer) (channels block : Nat) (h : Handover) : Prop where
  valid : h.link.Valid
  channels_eq : h.link.lanes.length = channels
  block_eq : h.link.blockLength = block
  pending : h.pending <:+ script channels fed
  conserved : ∀ (channel : Nat) (lane : Lane), h.link.lanes[channel]? = some lane →
    returned h.results channel ++ h.reading.inHand channel ++
      (lane.ring.contents ++ offered h.pending channel) = fedSamples fed channel
  closed : ∀ lane ∈ h.link.lanes, lane.ring.closed = true → OnlyCloses h.pending
  reading : h.reading.Agrees h.link h.pending
  whole : ∀ b ∈ blocks h.results, Whole channels block b
  full : ∀ b ∈ (blocks h.results).dropLast, b.samplesPerChannel.toNat = block
  ended : Ended block h.results → h.Drained
  answer : ∀ result ∈ h.results, (∃ b, result = .ok b) ∨ result = .error .noData ∨
    result = .error .endOfStream

section Steps

variable {fed : List Buffer} {channels block : Nat} {h : Handover}

theorem Sound.get (hs : h.Sound fed channels block) {channel : Nat} (hlt : channel < channels) :
    ∃ lane, h.link.lanes[channel]? = some lane :=
  ⟨_, List.getElem?_eq_getElem (hs.channels_eq ▸ hlt)⟩

theorem Sound.lt (hs : h.Sound fed channels block) {channel : Nat} {lane : Lane}
    (hlane : h.link.lanes[channel]? = some lane) : channel < channels :=
  hs.channels_eq ▸ (List.getElem?_eq_some_iff.mp hlane).1

theorem Sound.channels_pos (hs : h.Sound fed channels block) : 0 < channels := by
  rw [← hs.channels_eq]
  exact List.length_pos_iff.mpr hs.valid.lanes_ne

theorem Sound.length_returned (hs : h.Sound fed channels block) {channel : Nat}
    (hlt : channel < channels) : (returned h.results channel).length =
      ((blocks h.results).map (·.samplesPerChannel.toNat)).sum :=
  length_samples (fun b hb => (hs.whole b hb).complete) hlt

/-- When all has been written and the reader holds nothing, the rings are equally full. -/
theorem Sound.level_eq (hs : h.Sound fed channels block) (hfed : ∀ b ∈ fed, b.Complete channels)
    (honly : OnlyCloses h.pending) (hhand : ∀ channel, h.reading.inHand channel = []) :
    ∃ level, ∀ lane ∈ h.link.lanes, lane.ring.length = level := by
  refine ⟨(fed.map (·.samplesPerChannel.toNat)).sum -
    ((blocks h.results).map (·.samplesPerChannel.toNat)).sum, ?_⟩
  intro lane hmem
  obtain ⟨channel, hlane⟩ := List.mem_iff_getElem?.mp hmem
  have hlt := hs.lt hlane
  have hsum := congrArg List.length (hs.conserved channel lane hlane)
  rw [hhand, offered_of_no_push honly, List.append_nil, List.append_nil, List.length_append,
    hs.length_returned hlt, fedSamples, length_samples hfed hlt,
    Ring.length_contents (hs.valid.ring lane hmem)] at hsum
  omega

/-! ### The feeder -/

/-- An access of the feeder moves samples from what is pending to the end of the rings. -/
theorem Sound.of_grown (hs : h.Sound fed channels block) {link : Link} {pending : List Write}
    {added : Nat → List Sample} (hg : Grown h.link link added) (hsuffix : pending <:+ h.pending)
    (hadded : ∀ i, offered h.pending i = added i ++ offered pending i)
    (hclosed : ∀ lane ∈ link.lanes, lane.ring.closed = true → OnlyCloses pending)
    (overflowed : Bool) : Sound fed channels block { h with link, pending, overflowed } := by
  have honly : OnlyCloses h.pending → OnlyCloses pending :=
    fun hdone w hw => hdone w (hsuffix.subset hw)
  have hnone : OnlyCloses h.pending → ∀ i, added i = [] := by
    intro hdone i
    have := hadded i
    rw [offered_of_no_push hdone] at this
    exact (List.append_eq_nil_iff.mp this.symm).1
  constructor
  case valid =>
    apply hs.valid.of_lanes hg.block_eq hg.length_eq
    intro lane' hmem'
    obtain ⟨i, hlane'⟩ := List.mem_iff_getElem?.mp hmem'
    obtain ⟨lane, -, hvalid, -⟩ := hg.lane i lane' hlane'
    exact hvalid
  case channels_eq => exact hg.length_eq.trans hs.channels_eq
  case block_eq => exact hg.block_eq.trans hs.block_eq
  case pending => exact hsuffix.trans hs.pending
  case conserved =>
    intro i lane' hlane'
    obtain ⟨lane, hlane, -, -, hcontents⟩ := hg.lane i lane' hlane'
    rw [hcontents, List.append_assoc lane.ring.contents, ← hadded]
    exact hs.conserved i lane hlane
  case closed => exact hclosed
  case reading => exact hs.reading.of_grown hs.valid hg honly hnone
  case whole => exact hs.whole
  case full => exact hs.full
  case ended =>
    intro hended
    have hdrained := hs.ended hended
    refine ⟨honly hdrained.pending, ?_, hdrained.idle⟩
    intro lane' hmem'
    obtain ⟨i, hlane'⟩ := List.mem_iff_getElem?.mp hmem'
    obtain ⟨lane, hlane, hvalid', -, hcontents⟩ := hg.lane i lane' hlane'
    have hmem := List.mem_of_getElem? hlane
    rw [← Ring.length_contents hvalid', hcontents, hnone hdrained.pending, List.append_nil,
      Ring.length_contents (hs.valid.ring lane hmem), hdrained.empty lane hmem]
  case answer => exact hs.answer

theorem feed_push_sound (hs : h.Sound fed channels block) (hfed : ∀ b ∈ fed, b.Complete channels)
    {b : Buffer} {channel : Nat} {rest : List Write}
    (hpending : h.pending = .push b channel :: rest)
    (hroom : b.samplesPerChannel.toNat ≤ h.link.accepts b channel) :
    h.feed.Sound fed channels block := by
  have hmem : .push b channel ∈ script channels fed := hs.pending.subset (by simp [hpending])
  obtain ⟨hb, hlt⟩ := mem_script_push hmem
  have hg := feedLane_grown hs.valid (hfed b hb) hlt hroom
  simp only [feed, hpending]
  refine hs.of_grown hg ⟨[.push b channel], by simp [hpending]⟩ ?_ ?_ _
  · intro i
    rw [hpending]
    rfl
  · -- A ring that is closed already would be written to no more.
    intro lane' hmem' hc
    obtain ⟨i, hlane'⟩ := List.mem_iff_getElem?.mp hmem'
    simp only [feedLane_eq, List.getElem?_modify] at hlane'
    obtain ⟨lane, hlane, heq⟩ := Option.map_eq_some_iff.mp hlane'
    have hold : lane.ring.closed = true := by
      split at heq
      · rename_i hi
        subst hi
        have hvalid := hs.valid.ring lane (List.mem_of_getElem? hlane)
        obtain ⟨-, -, -, hclosed, -⟩ := Lane.feed_spec hvalid ((hfed b hb).channel_eq hlt)
        rw [← heq] at hc
        exact hclosed ▸ hc
      · rwa [← heq] at hc
    have honly := hs.closed lane (List.mem_of_getElem? hlane) hold
    cases honly (.push b channel) (by simp [hpending])

theorem feed_close_sound (hs : h.Sound fed channels block) {channel : Nat} {rest : List Write}
    (hpending : h.pending = .close channel :: rest) : h.feed.Sound fed channels block := by
  have honly : OnlyCloses rest := by
    obtain ⟨before, hbefore⟩ := hs.pending
    rw [hpending] at hbefore
    exact no_push_of_close hbefore
  simp only [feed, hpending]
  refine hs.of_grown (closeLane_grown hs.valid channel) ⟨[.close channel], by simp [hpending]⟩ ?_
    (fun _ _ _ => honly) _
  intro i
  rw [hpending]
  rfl

theorem feed_sound (hs : h.Sound fed channels block) (hfed : ∀ b ∈ fed, b.Complete channels)
    (hroom : h.feed.overflowed = false) : h.feed.Sound fed channels block := by
  cases hpending : h.pending with
  | nil =>
    have hfeed : h.feed = h := by simp [feed, hpending]
    rw [hfeed]
    exact hs
  | cons w rest =>
    cases w with
    | close channel => exact feed_close_sound hs hpending
    | push b channel =>
      simp only [feed, hpending, Bool.or_eq_false_iff, decide_eq_false_iff_not,
        Nat.not_lt] at hroom
      exact feed_push_sound hs hfed hpending hroom.2

/-! ### The reader -/

/-- A look at the rings changes only what the reader knows. -/
theorem Sound.of_look (hs : h.Sound fed channels block) {reading : Reading}
    (hreading : reading.Agrees h.link h.pending)
    (hhand : ∀ channel, reading.inHand channel = h.reading.inHand channel)
    (hidle : (∀ count parts, reading ≠ .taking count parts) ∨ ¬Ended block h.results) :
    Sound fed channels block { h with reading } where
  valid := hs.valid
  channels_eq := hs.channels_eq
  block_eq := hs.block_eq
  pending := hs.pending
  conserved := by
    intro channel lane hlane
    rw [hhand]
    exact hs.conserved channel lane hlane
  closed := hs.closed
  reading := hreading
  whole := hs.whole
  full := hs.full
  ended := by
    intro hended
    have hdrained := hs.ended hended
    exact ⟨hdrained.pending, hdrained.empty, hidle.resolve_right (absurd hended)⟩
  answer := hs.answer

/-- An answer without a block. -/
theorem Sound.of_refusal (hs : h.Sound fed channels block) {e : ReadError}
    (hhand : ∀ channel, h.reading.inHand channel = [])
    (he : e = .noData ∨ e = .endOfStream ∧ OnlyCloses h.pending ∧
      ∀ lane ∈ h.link.lanes, lane.ring.length = 0) :
    (h.finish 0 (.error e)).Sound fed channels block where
  valid := hs.valid
  channels_eq := hs.channels_eq
  block_eq := hs.block_eq
  pending := hs.pending
  conserved := by
    intro channel lane hlane
    have hold := hs.conserved channel lane hlane
    rw [hhand] at hold
    simpa only [finish, History.returned_error, Reading.inHand] using hold
  closed := hs.closed
  reading := by
    intro i hi
    omega
  whole := by simpa only [finish, History.blocks_error] using hs.whole
  full := by simpa only [finish, History.blocks_error] using hs.full
  ended := by
    intro hended
    have hidle : ∀ count parts, (h.finish 0 (.error e)).reading ≠ .taking count parts := by
      simp [finish]
    rcases he with rfl | ⟨rfl, honly, hempty⟩
    · have hold : Ended block h.results := by
        simpa [Ended, finish] using hended
      have hdrained := hs.ended hold
      exact ⟨hdrained.pending, hdrained.empty, hidle⟩
    · exact ⟨honly, hempty, hidle⟩
  answer := by
    simp only [finish, List.forall_mem_append, List.forall_mem_singleton]
    refine ⟨hs.answer, .inr ?_⟩
    rcases he with rfl | ⟨rfl, -⟩
    · exact .inl rfl
    · exact .inr rfl

theorem test_sound (hs : h.Sound fed channels block) {channel : Nat}
    (hreading : h.reading = .testing channel) : h.advance.Sound fed channels block := by
  have hagrees := hs.reading
  rw [hreading] at hagrees
  have hhand (reading : Reading) (hnone : ∀ c, reading.inHand c = []) (c : Nat) :
      reading.inHand c = h.reading.inHand c := by
    rw [hnone, hreading]
    rfl
  simp only [advance, hreading]
  cases hlane : h.link.lanes[channel]? with
  | none =>
    refine hs.of_look ⟨Nat.zero_le _, fun _ => ?_, ?_⟩ (hhand _ fun _ => rfl) (.inl (by simp))
    · -- All rings are closed, so nothing is written any more.
      obtain ⟨first, hfirst⟩ := hs.get hs.channels_pos
      have hbehind := List.getElem?_eq_none_iff.mp hlane
      have hpos := hs.channels_pos
      rw [hs.channels_eq] at hbehind
      exact hs.closed first (List.mem_of_getElem? hfirst) (hagrees 0 (by omega) first hfirst)
    · intro i level lane hlevel
      cases hlevel
  | some lane =>
    simp only
    split
    · rename_i hclosed
      refine hs.of_look ?_ (hhand _ fun _ => rfl) (.inl (by simp))
      intro i hi other hother
      rcases Nat.lt_succ_iff_lt_or_eq.mp hi with hi | rfl
      · exact hagrees i hi other hother
      · rw [hlane] at hother
        cases hother
        exact hclosed
    · refine hs.of_look ⟨Nat.zero_le _, by simp, ?_⟩ (hhand _ fun _ => rfl) (.inl (by simp))
      intro i level other hlevel
      cases hlevel

/-- A plan to take samples is never made once the stream has ended. -/
theorem Sound.not_ended (hs : h.Sound fed channels block) {lane : Lane}
    (hmem : lane ∈ h.link.lanes) (hpos : 0 < lane.ring.length) : ¬Ended block h.results := by
  intro hended
  have hzero := (hs.ended hended).empty lane hmem
  omega

/-- All levels have been read: the reader takes a block, or gives up. -/
theorem decide_sound (hs : h.Sound fed channels block) (hfed : ∀ b ∈ fed, b.Complete channels)
    {closed : Bool} {levels : List Nat} (hreading : h.reading = .measuring closed levels)
    (hall : h.link.lanes[levels.length]? = none) : h.advance.Sound fed channels block := by
  have hagrees := hs.reading
  rw [hreading] at hagrees
  obtain ⟨hle, hdone, hlevels⟩ := hagrees
  have hhand : ∀ channel, h.reading.inHand channel = [] := by
    rw [hreading]
    exact fun _ => rfl
  have hlen : levels.length = h.link.lanes.length :=
    Nat.le_antisymm hle (List.getElem?_eq_none_iff.mp hall)
  have hne : levels ≠ [] := by
    rw [← List.length_pos_iff, hlen, hs.channels_eq]
    exact hs.channels_pos
  have hblock := hs.valid.block_pos
  -- A level was read for every ring.
  have hread : ∀ (i : Nat) (lane : Lane), h.link.lanes[i]? = some lane →
      least levels ≤ lane.ring.length := by
    intro i lane hlane
    have hi : i < levels.length := hlen ▸ (List.getElem?_eq_some_iff.mp hlane).1
    have hlevel := List.getElem?_eq_getElem hi
    have hlow := (hlevels i _ lane hlevel hlane).1
    exact Nat.le_trans ((le_least hne _).mp (Nat.le_refl _) _ (List.getElem_mem hi)) hlow
  obtain ⟨first, hfirst⟩ := hs.get hs.channels_pos
  have htake : 0 < least levels → ¬Ended block h.results := fun hpos =>
    hs.not_ended (List.mem_of_getElem? hfirst) (Nat.lt_of_lt_of_le hpos (hread 0 first hfirst))
  simp only [advance, hreading, hall]
  by_cases hfull : h.link.blockLength ≤ least levels
  · rw [plan, if_pos hfull]
    refine hs.of_look ⟨Nat.zero_le _, hblock, List.forall_mem_nil _, ?_, .inl rfl⟩ ?_
      (.inr (htake (by omega)))
    · intro i lane hlane _
      exact Nat.le_trans hfull (hread i lane hlane)
    · intro channel
      rw [hhand]
      rfl
  rw [plan, if_neg hfull]
  cases closed with
  | false => exact hs.of_refusal hhand (.inl rfl)
  | true =>
    have honly := hdone rfl
    -- The levels are final, and equal.
    obtain ⟨level, hequal⟩ := hs.level_eq hfed honly hhand
    have hleast : least levels = level := by
      apply least_eq hne
      intro n hn
      obtain ⟨i, hi⟩ := List.mem_iff_getElem?.mp hn
      have hlt : i < channels := by
        rw [← hs.channels_eq, ← hlen]
        exact (List.getElem?_eq_some_iff.mp hi).1
      obtain ⟨lane, hlane⟩ := hs.get hlt
      rw [(hlevels i n lane hi hlane).2 rfl, hequal lane (List.mem_of_getElem? hlane)]
    rw [if_pos rfl]
    by_cases hnone : least levels = 0
    · rw [if_pos hnone]
      refine hs.of_refusal hhand (.inr ⟨rfl, honly, ?_⟩)
      intro lane hmem
      rw [hequal lane hmem, ← hleast, hnone]
    · rw [if_neg hnone]
      refine hs.of_look ⟨Nat.zero_le _, by omega, List.forall_mem_nil _, ?_,
        .inr ⟨by omega, honly, ?_⟩⟩ ?_
        (.inr (htake (by omega)))
      · intro i lane hlane _
        exact hread i lane hlane
      · intro i lane hlane
        rw [hequal lane (List.mem_of_getElem? hlane), ← hleast]
        simp
      · intro channel
        rw [hhand]
        rfl

theorem measure_sound (hs : h.Sound fed channels block) (hfed : ∀ b ∈ fed, b.Complete channels)
    {closed : Bool} {levels : List Nat} (hreading : h.reading = .measuring closed levels) :
    h.advance.Sound fed channels block := by
  cases hlane : h.link.lanes[levels.length]? with
  | none => exact decide_sound hs hfed hreading hlane
  | some lane =>
    have hagrees := hs.reading
    rw [hreading] at hagrees
    obtain ⟨-, hdone, hlevels⟩ := hagrees
    simp only [advance, hreading, hlane]
    refine hs.of_look ⟨?_, hdone, ?_⟩ (fun channel => by rw [hreading]; rfl) (.inl (by simp))
    · rw [List.length_append]
      exact (List.getElem?_eq_some_iff.mp hlane).1
    · intro i level other hlevel hother
      by_cases hi : i < levels.length
      · rw [List.getElem?_append_left hi] at hlevel
        exact hlevels i level other hlevel hother
      · have hlast : i = levels.length := by
          have := (List.getElem?_eq_some_iff.mp hlevel).1
          rw [List.length_append, List.length_singleton] at this
          omega
        subst hlast
        rw [List.getElem?_append_right (Nat.le_refl _), Nat.sub_self] at hlevel
        cases hlevel
        rw [hlane] at hother
        cases hother
        exact ⟨Nat.le_refl _, fun _ => rfl⟩

/-- Once the stream has ended, no block is under way. -/
theorem Sound.not_ended_of_taking (hs : h.Sound fed channels block) {count : Nat}
    {parts : List (List Sample)} (hreading : h.reading = .taking count parts) :
    ¬Ended block h.results := by
  intro hended
  exact (hs.ended hended).idle count parts hreading

/-- The reader takes its part from the next ring. -/
theorem take_sound (hs : h.Sound fed channels block) {count : Nat} {parts : List (List Sample)}
    (hreading : h.reading = .taking count parts) {lane : Lane}
    (hlane : h.link.lanes[parts.length]? = some lane) : h.advance.Sound fed channels block := by
  have hagrees := hs.reading
  rw [hreading] at hagrees
  have hmem := List.mem_of_getElem? hlane
  have hvalid := hs.valid.ring lane hmem
  have hle := hagrees.2.2.2.1 _ lane hlane (Nat.le_refl _)
  obtain ⟨hvalid', hcontents, -, hclosed⟩ := Lane.drain_spec hvalid count
  have hlt := (List.getElem?_eq_some_iff.mp hlane).1
  simp only [advance, hreading, hlane, Lane.take_of_le hvalid hle]
  constructor
  case valid =>
    refine hs.valid.of_lanes rfl (List.length_set ..) ?_
    intro lane' hmem'
    rcases List.mem_or_eq_of_mem_set hmem' with hold | rfl
    · exact hs.valid.ring lane' hold
    · exact hvalid'
  case channels_eq => exact (List.length_set ..).trans hs.channels_eq
  case block_eq => exact hs.block_eq
  case pending => exact hs.pending
  case conserved =>
    intro i lane' hlane'
    simp only [Reading.inHand]
    rcases getElem?_set_cases hlt hlane' with ⟨rfl, rfl⟩ | ⟨hi, hold⟩
    · -- What is now in the hand stood at the front of the ring.
      have hold := hs.conserved _ lane hlane
      rw [hreading] at hold
      simp only [Reading.inHand, List.getElem?_eq_none (Nat.le_refl _), Option.getD_none,
        List.append_nil] at hold
      rw [List.getElem?_append_right (Nat.le_refl _), Nat.sub_self, List.getElem?_cons_zero,
        Option.getD_some, hcontents, List.append_assoc,
        ← List.append_assoc (lane.ring.contents.take _), List.take_append_drop, hold]
    · have hsame := hs.conserved i lane' hold
      rw [hreading] at hsame
      by_cases hlow : i < parts.length
      · rw [List.getElem?_append_left hlow]
        exact hsame
      · rw [List.getElem?_eq_none (by rw [List.length_append, List.length_singleton]; omega)]
        simp only [Reading.inHand, List.getElem?_eq_none (Nat.le_of_not_lt hlow)] at hsame
        exact hsame
  case closed =>
    intro lane' hmem' hc
    rcases List.mem_or_eq_of_mem_set hmem' with hold | rfl
    · exact hs.closed lane' hold hc
    · exact hs.closed lane hmem (hclosed ▸ hc)
  case reading => exact hagrees.take hs.valid hlane
  case whole => exact hs.whole
  case full => exact hs.full
  case ended => exact fun hended => absurd hended (hs.not_ended_of_taking hreading)
  case answer => exact hs.answer

/-- As long as the stream has not ended, all blocks are full. -/
theorem Sound.full_of_not_ended (hs : h.Sound fed channels block)
    (hnot : ¬Ended block h.results) :
    ∀ b ∈ blocks h.results, b.samplesPerChannel.toNat = block := by
  intro b hmem
  have hatmost := (hs.whole b hmem).le
  by_cases hshort : b.samplesPerChannel.toNat < block
  · exact absurd (.inr ⟨b, hmem, hshort⟩) hnot
  · omega

/-- Parts of one length from all rings make a block. -/
theorem Sound.whole_of_parts (hs : h.Sound fed channels block) {count : Nat}
    {parts : List (List Sample)} (hlen : parts.length = h.link.lanes.length)
    (hparts : ∀ part ∈ parts, part.length = count) (hpos : 0 < count)
    (hle : count ≤ h.link.blockLength) {b : Buffer}
    (hchannels : b.channels = UInt32.ofNat h.link.lanes.length)
    (hcount : b.samplesPerChannel = UInt32.ofNat count) (hsamples : b.samples = parts.flatten) :
    Whole channels block b ∧ b.samplesPerChannel.toNat = count ∧
      ∀ channel, b.channel? channel = parts[channel]? := by
  have hword : b.samplesPerChannel.toNat = count := by
    rw [hcount]
    exact UInt32.toNat_ofNat_of_lt' (Nat.lt_of_le_of_lt hle hs.valid.block_lt)
  have hall : b.channels.toNat = h.link.lanes.length := by
    rw [hchannels]
    exact UInt32.toNat_ofNat_of_lt' hs.valid.lanes_lt
  have hchannel (channel : Nat) : b.channel? channel = parts[channel]? := by
    rw [Buffer.channel?, hsamples]
    exact channelOf_flatten (by rwa [hword]) (by rw [hall, hlen])
  refine ⟨⟨?_, hall.trans hs.channels_eq, by rwa [hword], by rwa [hword, ← hs.block_eq]⟩,
    hword, hchannel⟩
  intro channel hlt
  rw [hchannel, List.getElem?_eq_getElem (by rw [hlen, hs.channels_eq]; exact hlt)]
  rfl

/-- The block is complete. -/
theorem return_sound (hs : h.Sound fed channels block) {count : Nat} {parts : List (List Sample)}
    (hreading : h.reading = .taking count parts) (hall : h.link.lanes[parts.length]? = none) :
    h.advance.Sound fed channels block := by
  have hagrees := hs.reading
  rw [hreading] at hagrees
  obtain ⟨hle, hpos, hparts, -, hsize⟩ := hagrees
  have hlen : parts.length = h.link.lanes.length :=
    Nat.le_antisymm hle (List.getElem?_eq_none_iff.mp hall)
  have hnot := hs.not_ended_of_taking hreading
  have hlong := hs.full_of_not_ended hnot
  have hblock : count ≤ h.link.blockLength := by omega
  simp only [advance, hreading, hall, finish]
  generalize hb : (Buffer.mk h.link.nextSequence 0 (UInt32.ofNat h.link.lanes.length)
    (UInt32.ofNat count) parts.flatten) = b
  obtain ⟨hwhole, hsize_eq, hsamples⟩ := hs.whole_of_parts hlen hparts hpos hblock
    (congrArg Buffer.channels hb).symm (congrArg Buffer.samplesPerChannel hb).symm
    (congrArg Buffer.samples hb).symm
  constructor
  case valid => exact ⟨hs.valid.lanes_ne, hs.valid.lanes_lt, hs.valid.block_pos, hs.valid.block_lt,
    hs.valid.ring⟩
  case channels_eq => exact hs.channels_eq
  case block_eq => exact hs.block_eq
  case pending => exact hs.pending
  case conserved =>
    intro channel lane hlane
    have hold := hs.conserved channel lane hlane
    rw [hreading] at hold
    simp only [Reading.inHand] at hold
    simpa only [History.returned_ok, Reading.inHand, List.append_nil, Buffer.samplesOf, hsamples]
      using hold
  case closed => exact hs.closed
  case reading =>
    intro i hi
    omega
  case whole =>
    rw [History.blocks_ok, List.forall_mem_append, List.forall_mem_singleton]
    exact ⟨hs.whole, hwhole⟩
  case full =>
    rw [History.blocks_ok, List.dropLast_concat]
    exact hlong
  case ended =>
    intro hended
    have hshort : b.samplesPerChannel.toNat < block := by
      rcases hended with hmem | ⟨old, hold, hlt⟩
      · rcases List.mem_append.mp hmem with hmem | hmem
        · exact absurd (.inl hmem) hnot
        · cases List.mem_singleton.mp hmem
      · rw [History.blocks_ok] at hold
        rcases List.mem_append.mp hold with hold | hold
        · have := hlong old hold
          omega
        · rwa [← List.mem_singleton.mp hold]
    rw [hsize_eq, ← hs.block_eq] at hshort
    rcases hsize with hfull | ⟨-, honly, hrest⟩
    · omega
    · refine ⟨honly, ?_, by simp⟩
      intro lane hmem
      obtain ⟨i, hlane⟩ := List.mem_iff_getElem?.mp hmem
      rw [hrest i lane hlane, if_pos]
      rw [hlen]
      exact (List.getElem?_eq_some_iff.mp hlane).1
  case answer =>
    rw [List.forall_mem_append, List.forall_mem_singleton]
    exact ⟨hs.answer, .inl ⟨b, rfl⟩⟩

theorem advance_sound (hs : h.Sound fed channels block) (hfed : ∀ b ∈ fed, b.Complete channels) :
    h.advance.Sound fed channels block := by
  cases hreading : h.reading with
  | testing channel => exact test_sound hs hreading
  | measuring closed levels => exact measure_sound hs hfed hreading
  | taking count parts =>
    cases hlane : h.link.lanes[parts.length]? with
    | none => exact return_sound hs hreading hlane
    | some lane => exact take_sound hs hreading hlane

theorem step_sound (hs : h.Sound fed channels block) (hfed : ∀ b ∈ fed, b.Complete channels)
    {party : Party} (hroom : (h.step party).overflowed = false) :
    (h.step party).Sound fed channels block := by
  cases party with
  | feeder => exact feed_sound hs hfed hroom
  | reader => exact advance_sound hs hfed

@[simp] theorem finish_overflowed (count : Nat) (result : Except ReadError (List Sample)) :
    (h.finish count result).overflowed = h.overflowed := by
  cases result with
  | error e => rfl
  | ok samples => rfl

theorem advance_overflowed : h.advance.overflowed = h.overflowed := by
  cases hreading : h.reading with
  | testing channel =>
    simp only [advance, hreading]
    split
    · rfl
    · split
      · rfl
      · rfl
  | measuring closed levels =>
    simp only [advance, hreading]
    split
    · rfl
    · split
      · simp
      · rfl
  | taking count parts =>
    simp only [advance, hreading]
    split
    · simp
    · split
      · simp
      · rfl

theorem overflowed_of_step {party : Party} (hroom : (h.step party).overflowed = false) :
    h.overflowed = false := by
  cases party with
  | feeder =>
    simp only [step, feed] at hroom
    split at hroom
    · exact hroom
    · exact (Bool.or_eq_false_iff.mp hroom).1
    · exact hroom
  | reader => exact advance_overflowed ▸ hroom

end Steps

/-! ## Runs -/

theorem start_sound (channels : UInt32) (capacity : Nat) (block : UInt32) (rate : Double)
    (fed : List Buffer) : Sound fed (max channels.toNat 1) (max block.toNat 1)
      (start (Link.new channels capacity block rate) fed) where
  valid := new_valid channels capacity block rate
  channels_eq := by
    simp only [start]
    rw [new_lanes, List.length_replicate]
  block_eq := rfl
  pending := by
    simp only [start, new_lanes, List.length_replicate]
    exact List.suffix_refl _
  conserved := by
    intro channel lane hlane
    simp only [start] at hlane ⊢
    rw [new_lanes] at hlane ⊢
    have hlt := (List.getElem?_eq_some_iff.mp hlane).1
    rw [List.eq_of_mem_replicate (List.mem_of_getElem? hlane), Ring.contents_new]
    exact offered_script hlt
  closed := by
    intro lane hmem hclosed
    simp only [start] at hmem
    rw [new_lanes] at hmem
    rw [List.eq_of_mem_replicate hmem] at hclosed
    cases hclosed
  reading := by
    intro i hi
    omega
  whole := List.forall_mem_nil _
  full := List.forall_mem_nil _
  ended := by
    rintro (hmem | ⟨b, hmem, -⟩)
    · cases hmem
    · cases hmem
  answer := List.forall_mem_nil _

theorem run_sound {fed : List Buffer} {channels block : Nat} {h : Handover}
    (hs : h.Sound fed channels block) (hfed : ∀ b ∈ fed, b.Complete channels)
    (schedule : List Party) (hroom : (h.run schedule).overflowed = false) :
    (h.run schedule).Sound fed channels block := by
  induction schedule using List.reverseRecOn with
  | nil => exact hs
  | append_singleton schedule party ih =>
    have hlast : h.run (schedule ++ [party]) = (h.run schedule).step party := by simp [run]
    rw [hlast] at hroom ⊢
    exact step_sound (ih (overflowed_of_step hroom)) hfed hroom

/-- Any blocks that have all channels, and any order in which the feeder and the reader access the
rings, as long as no ring overflows. What has been returned of a channel is at all times a part of
what was fed, from its beginning; all blocks but the last are full; and when the end of the stream
has been reported, everything has been returned. -/
theorem run_returns_all (channels : UInt32) (capacity : Nat) (block : UInt32) (rate : Double)
    (fed : List Buffer) (hfed : ∀ b ∈ fed, b.Complete (max channels.toNat 1))
    (schedule : List Party)
    (hroom :
      (run (start (Link.new channels capacity block rate) fed) schedule).overflowed = false) :
    let results := (run (start (Link.new channels capacity block rate) fed) schedule).results
    (∀ channel < max channels.toNat 1, returned results channel <+: fedSamples fed channel) ∧
      (∀ b ∈ blocks results, Whole (max channels.toNat 1) (max block.toNat 1) b) ∧
      (∀ b ∈ (blocks results).dropLast, b.samplesPerChannel.toNat = max block.toNat 1) ∧
      (.error .endOfStream ∈ results → ∀ channel < max channels.toNat 1,
        returned results channel = fedSamples fed channel) ∧
      ∀ result ∈ results, (∃ b, result = .ok b) ∨ result = .error .noData ∨
        result = .error .endOfStream := by
  intro results
  have hs := run_sound (start_sound channels capacity block rate fed) hfed schedule hroom
  refine ⟨?_, hs.whole, hs.full, ?_, hs.answer⟩
  · intro channel hlt
    obtain ⟨lane, hlane⟩ := hs.get hlt
    have hconserved := hs.conserved channel lane hlane
    rw [List.append_assoc] at hconserved
    exact ⟨_, hconserved⟩
  · intro hend channel hlt
    obtain ⟨lane, hlane⟩ := hs.get hlt
    have hdrained := hs.ended (.inl hend)
    have hmem := List.mem_of_getElem? hlane
    have hempty : lane.ring.contents = [] := by
      rw [← List.length_eq_zero_iff, Ring.length_contents (hs.valid.ring lane hmem)]
      exact hdrained.empty lane hmem
    have hconserved := hs.conserved channel lane hlane
    rwa [hempty, hdrained.inHand, offered_of_no_push hdrained.pending, List.append_nil,
      List.append_nil, List.append_nil] at hconserved

/-- The feeder closes the first ring before the reader has read the second level, and the second
ring between two levels of the next read. -/
theorem run_returns_all_tail :
    let fed : List Buffer :=
      [{ channels := 2, samplesPerChannel := 3, samples := [1, 2, 3, 11, 12, 13] }]
    let schedule : List Party := [.reader, .feeder, .reader, .feeder, .feeder] ++
      List.replicate 8 .reader ++ [.feeder] ++ List.replicate 17 .reader
    let h := run (start (Link.new 2 3 2 .zero) fed) schedule
    h.overflowed = false ∧
      h.results = [.ok { channels := 2, samplesPerChannel := 2, samples := [1, 2, 11, 12] },
        .error .noData,
        .ok { sequence := 1, channels := 2, samplesPerChannel := 1, samples := [3, 13] },
        .error .endOfStream] ∧
      ∀ channel < 2, returned h.results channel = fedSamples fed channel := by
  intro fed schedule h
  have hfed : ∀ b ∈ fed, b.Complete 2 := by decide +kernel
  have hroom : h.overflowed = false := by decide +kernel
  have hend : .error .endOfStream ∈ h.results := by decide +kernel
  obtain ⟨-, -, -, hall, -⟩ := run_returns_all 2 3 2 .zero fed hfed schedule hroom
  exact ⟨hroom, by decide +kernel, hall hend⟩

end Handover

end Link

end Oscilloscope
