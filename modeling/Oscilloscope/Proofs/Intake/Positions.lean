import Mathlib.Algebra.GroupWithZero.Nat
import Mathlib.Data.List.Induction
import Oscilloscope.Proofs.Frame.Channels
import Oscilloscope.Stage.Intake

/-!
# Oscilloscope.Proofs.Intake.Positions

The positions that an intake gives to its frames follow the numbers of the blocks.

The position and the total of the gaps are kept apart, and each may saturate at several places.
Still each is a closed form of the numbers alone.

* `toNat_addSaturating`, `toNat_mulSaturating`: saturating arithmetic is exact arithmetic that is
  cut once.
* `Numbering.Reached`: where the numbering stands after a block. `Numbering.receive_first` and
  `Numbering.receive_next` are the two steps.
* `Intake.Session`: an intake with the blocks it has read and the frames it has made, whatever
  happens to its source between two calls.
* `Intake.Session.run_positions`: position and total after any run.
-/

namespace Oscilloscope

/-! ## Saturating arithmetic -/

theorem toNat_addSaturating (a b : UInt64) :
    (addSaturating a b).toNat = min (2 ^ 64 - 1) (a.toNat + b.toNat) := by
  have hmax : maxWord.toNat = 2 ^ 64 - 1 := rfl
  have ha := a.toNat_lt
  have hroom : (maxWord - a).toNat = 2 ^ 64 - 1 - a.toNat := by
    rw [UInt64.toNat_sub_of_le _ _ (UInt64.le_iff_toNat_le.mpr (by omega)), hmax]
  unfold addSaturating
  split
  · rename_i hlt
    have hover := UInt64.lt_iff_toNat_lt.mp hlt
    omega
  · rename_i hle
    have hfits := UInt64.le_iff_toNat_le.mp (UInt64.not_lt.mp hle)
    rw [UInt64.toNat_add, Nat.mod_eq_of_lt (by omega)]
    omega

theorem toNat_mulSaturating (a b : UInt64) :
    (mulSaturating a b).toNat = min (2 ^ 64 - 1) (a.toNat * b.toNat) := by
  have hmax : maxWord.toNat = 2 ^ 64 - 1 := rfl
  unfold mulSaturating
  rw [hmax]
  split
  · rename_i hfits
    rw [UInt64.toNat_mul, Nat.mod_eq_of_lt (by omega)]
    omega
  · rw [hmax]
    omega

/-! ## The numbering -/

namespace Numbering

/-- Where the numbering stands behind the block numbered `last`, the `count`-th since `first`, when
every block has `each` samples per channel. -/
structure Reached (each first last count : Nat) (n : Numbering) : Prop where
  le : first ≤ last
  expected : n.tracker.expected = some (UInt64.ofNat (last + 1))
  total : first + n.tracker.totalGaps.toNat + count = last + 1
  next : n.nextIndex.toNat = min (2 ^ 64 - 1) ((last + 1 - first) * each)

variable {n : Numbering} {b : Buffer}

/-- A block that fits becomes a frame at the position behind the gap. -/
theorem receive_of_fits (hfits : b.Fits) (rate : Double) :
    ∃ f n', n.receive b rate = (some f, n') ∧ f.toBuffer = b ∧
      f.firstIndex = (n.note b).nextIndex ∧ n'.tracker = n.tracker.observe b.sequence ∧
      n'.nextIndex = addSaturating (n.note b).nextIndex b.samplesPerChannel.toUInt64 := by
  have htracker : (n.note b).tracker = n.tracker.observe b.sequence := by
    unfold note
    dsimp only
    split <;> rfl
  unfold receive Frame.ofBuffer?
  rw [Frame.ofSamples?_of_fits hfits]
  exact ⟨_, _, rfl, rfl, rfl, htracker, rfl⟩

/-- The first block of a run is at the beginning, and no number is missing before it. -/
theorem receive_first (hfits : b.Fits) (rate : Double) (htracker : n.tracker = {})
    (hindex : n.nextIndex = 0) :
    ∃ f n', n.receive b rate = (some f, n') ∧ f.toBuffer = b ∧ f.firstIndex.toNat = 0 ∧
      n'.Reached b.samplesPerChannel.toNat b.sequence.toNat b.sequence.toNat 1 := by
  have hgap : n.tracker.gap b.sequence = 0 := by rw [htracker]; rfl
  have hnote : (n.note b).nextIndex = 0 := by
    simp only [note, hgap, UInt64.lt_irrefl, if_false, hindex]
  obtain ⟨f, n', hreceive, hbuffer, hfirst, htracker', hnext⟩ := receive_of_fits (n := n) hfits rate
  rw [hnote] at hfirst hnext
  refine ⟨f, n', hreceive, hbuffer, by rw [hfirst]; rfl, Nat.le_refl _, ?_, ?_, ?_⟩
  · rw [htracker', SequenceTracker.observe, UInt64.ofNat_add, UInt64.ofNat_toNat]
    rfl
  · rw [htracker', SequenceTracker.observe, hgap, htracker, toNat_addSaturating]
    rfl
  · rw [hnext, toNat_addSaturating, UInt32.toNat_toUInt64, Nat.add_sub_cancel_left, Nat.one_mul]
    exact congrArg _ (Nat.zero_add _)

theorem Reached.gap {each first last count : Nat} (h : n.Reached each first last count)
    (hlt : last < b.sequence.toNat) :
    (n.tracker.gap b.sequence).toNat = b.sequence.toNat - (last + 1) := by
  have hword := b.sequence.toNat_lt
  have hexpected : (UInt64.ofNat (last + 1)).toNat = last + 1 :=
    UInt64.toNat_ofNat_of_lt' (by unfold UInt64.size; omega)
  simp only [SequenceTracker.gap, h.expected]
  -- The number expected next does not wrap, since a larger one has come.
  by_cases hcut : UInt64.ofNat (last + 1) < b.sequence
  · have hle := UInt64.le_of_lt hcut
    rw [if_pos hcut, UInt64.toNat_sub_of_le _ _ hle, hexpected]
  · have hge := UInt64.le_iff_toNat_le.mp (UInt64.not_lt.mp hcut)
    rw [hexpected] at hge
    have hnot : ¬b.sequence < UInt64.ofNat (last + 1) := by
      rw [UInt64.lt_iff_toNat_lt, hexpected]
      omega
    rw [if_neg hcut, if_neg hnot, UInt64.toNat_zero]
    omega

/-- The position behind the gap is that of the number, cut at the largest word: it does not matter
whether the position, the missing samples or their sum had to be cut before. -/
theorem Reached.note_index {each first last count : Nat} (h : n.Reached each first last count)
    (hlt : last < b.sequence.toNat) (heach : b.samplesPerChannel.toNat = each) :
    (n.note b).nextIndex.toNat = min (2 ^ 64 - 1) ((b.sequence.toNat - first) * each) := by
  have hle := h.le
  have hgap := h.gap hlt
  have hsplit : (b.sequence.toNat - first) * each =
      (last + 1 - first) * each + (b.sequence.toNat - (last + 1)) * each := by
    rw [← Nat.add_mul]
    congr 1
    omega
  by_cases hnone : 0 < n.tracker.gap b.sequence
  · simp only [note, if_pos hnone]
    rw [toNat_addSaturating, toNat_mulSaturating, hgap, h.next, UInt32.toNat_toUInt64, heach,
      hsplit]
    omega
  · have hzero : (n.tracker.gap b.sequence).toNat = 0 :=
      Nat.eq_zero_of_not_pos fun hpos => hnone (UInt64.lt_iff_toNat_lt.mpr hpos)
    simp only [note, if_neg hnone]
    rw [h.next, hsplit, ← hgap, hzero, Nat.zero_mul]
    rfl

/-- A block with a larger number goes to its position. -/
theorem receive_next {each first last count : Nat} (h : n.Reached each first last count)
    (hlt : last < b.sequence.toNat) (hfits : b.Fits) (heach : b.samplesPerChannel.toNat = each)
    (rate : Double) :
    ∃ f n', n.receive b rate = (some f, n') ∧ f.toBuffer = b ∧
      f.firstIndex.toNat = min (2 ^ 64 - 1) ((b.sequence.toNat - first) * each) ∧
      n'.Reached each first b.sequence.toNat (count + 1) := by
  have hle := h.le
  have hindex := h.note_index hlt heach
  have hgap := h.gap hlt
  have htotal := h.total
  have hword := b.sequence.toNat_lt
  obtain ⟨f, n', hreceive, hbuffer, hfirst, htracker, hnext⟩ := receive_of_fits (n := n) hfits rate
  refine ⟨f, n', hreceive, hbuffer, by rw [hfirst, hindex], by omega, ?_, ?_, ?_⟩
  · rw [htracker, SequenceTracker.observe, UInt64.ofNat_add, UInt64.ofNat_toNat]
    rfl
  · rw [htracker, SequenceTracker.observe, toNat_addSaturating, hgap]
    omega
  · have hsucc : (b.sequence.toNat + 1 - first) * each =
        (b.sequence.toNat - first) * each + each := by
      rw [← Nat.succ_mul]
      congr 1
      omega
    rw [hnext, toNat_addSaturating, hindex, UInt32.toNat_toUInt64, heach, hsucc]
    omega

end Numbering

/-! ## Runs -/

namespace Intake

/-- What happens to an intake that runs. -/
inductive Event where
  /-- The worker calls it. -/
  | call
  /-- Others feed, fill or otherwise change its source. -/
  | exchange (source : Source)

/-- A frame with the total of the gaps that is known after it. -/
structure Emission where
  frame : Frame
  totalGaps : UInt64

/-- An intake with its past since it was started. -/
structure Session where
  intake : Intake
  /-- The blocks that its source delivered, in order. -/
  blocks : List Buffer := []
  /-- The frames that it made, in order. -/
  made : List Emission := []

namespace Session

/-- A call that breaks off delivers nothing. What it leaves of the source is an exchange. -/
def step (s : Session) : Event → Session
  | .call =>
    match s.intake.process [] with
    | .returned done =>
      { intake := done.stage
        blocks := s.blocks ++ s.intake.source.read.1.toOption.toList
        made := s.made ++ done.made.map fun f => ⟨f, done.stage.numbering.tracker.totalGaps⟩ }
    | _ => s
  | .exchange source => { s with intake := { s.intake with source } }

def run (s : Session) (events : List Event) : Session := events.foldl step s

/-- The blocks are well formed, have `each` samples per channel, and their numbers increase. -/
structure Increasing (each : Nat) (blocks : List Buffer) : Prop where
  fits : ∀ b ∈ blocks, b.Fits
  size : ∀ b ∈ blocks, b.samplesPerChannel.toNat = each
  increasing : blocks.Pairwise fun b later => b.sequence < later.sequence

/-- The frame of block number `k` stands where its number says, and the total of the gaps is what
is missing from the numbers so far. -/
structure Placed (each first k : Nat) (b : Buffer) (e : Emission) : Prop where
  block : e.frame.toBuffer = b
  index : e.frame.firstIndex.toNat = min (2 ^ 64 - 1) ((b.sequence.toNat - first) * each)
  total : first + e.totalGaps.toNat + k = b.sequence.toNat

/-- What every event preserves. -/
structure Sound (each : Nat) (s : Session) : Prop where
  fresh : s.blocks = [] → s.intake.numbering.tracker = {} ∧ s.intake.numbering.nextIndex = 0
  reached : ∀ first ∈ s.blocks.head?, ∀ last ∈ s.blocks.getLast?,
    s.intake.numbering.Reached each first.sequence.toNat last.sequence.toNat s.blocks.length
  count : s.made.length = s.blocks.length
  placed : ∀ first ∈ s.blocks.head?, ∀ (k : Nat) (b : Buffer) (e : Emission),
    s.blocks[k]? = some b → s.made[k]? = some e → Placed each first.sequence.toNat k b e

variable {each : Nat} {s : Session}

theorem start_sound (each : Nat) (intake : Intake) : Sound each { intake := intake.start.2 } where
  fresh := fun _ => ⟨rfl, rfl⟩
  reached := by
    intro first hfirst
    cases hfirst
  count := rfl
  placed := by
    intro first hfirst
    cases hfirst

theorem step_of_error {e : ReadError} {source : Source}
    (hread : s.intake.source.read = (.error e, source)) :
    s.step .call = { s with intake := { s.intake with source } } := by
  cases e <;> simp [step, process, hread, Outcome.toOption]

theorem step_of_overflow {source : Source} (hread : s.intake.source.read = (.overflow, source)) :
    s.step .call = s := by
  simp [step, process, hread]

theorem step_of_block {b : Buffer} {source : Source} {f : Frame} {n : Numbering}
    (hread : s.intake.source.read = (.ok b, source))
    (hreceive : s.intake.numbering.receive b source.info.rate = (some f, n)) :
    s.step .call = { intake := ⟨source, n⟩, blocks := s.blocks ++ [b],
                     made := s.made ++ [⟨f, n.tracker.totalGaps⟩] } := by
  simp [step, process, hread, hreceive, Outcome.toOption]

/-- One more block, with the frame that is made of it. -/
theorem Sound.append (hs : s.Sound each) {b : Buffer} {source : Source} {f : Frame} {n : Numbering}
    (hbuffer : f.toBuffer = b)
    (hhere : ∀ first ∈ (s.blocks ++ [b]).head?,
      f.firstIndex.toNat = min (2 ^ 64 - 1) ((b.sequence.toNat - first.sequence.toNat) * each) ∧
        n.Reached each first.sequence.toNat b.sequence.toNat (s.blocks.length + 1)) :
    Sound each { intake := ⟨source, n⟩, blocks := s.blocks ++ [b],
                 made := s.made ++ [⟨f, n.tracker.totalGaps⟩] } where
  fresh := by
    intro hnil
    simp at hnil
  reached := by
    intro first hfirst last hlast
    rw [List.getLast?_concat, Option.mem_some_iff] at hlast
    subst hlast
    rw [List.length_append]
    exact (hhere first hfirst).2
  count := by rw [List.length_append, List.length_append, hs.count]; rfl
  placed := by
    intro first hfirst k block e hblock hmade
    by_cases hk : k < s.blocks.length
    · -- An old frame, and then the run began with the same block.
      rw [List.getElem?_append_left hk] at hblock
      rw [List.getElem?_append_left (hs.count ▸ hk)] at hmade
      have hfirst' : first ∈ s.blocks.head? := by
        rw [List.head?_append] at hfirst
        cases hhead : s.blocks.head? with
        | none => rw [List.head?_eq_none_iff.mp hhead] at hk; cases hk
        | some old => rwa [hhead, Option.some_or] at hfirst
      exact hs.placed first hfirst' k block e hblock hmade
    · obtain ⟨hlt, -⟩ := List.getElem?_eq_some_iff.mp hblock
      rw [List.length_append, List.length_singleton] at hlt
      obtain rfl : k = s.blocks.length := by omega
      rw [List.getElem?_concat_length] at hblock
      rw [← hs.count, List.getElem?_concat_length] at hmade
      cases hblock
      cases hmade
      obtain ⟨hindex, hreached⟩ := hhere first hfirst
      have htotal := hreached.total
      exact ⟨hbuffer, hindex, by dsimp only; omega⟩

/-- A block behind the others is received at its position. -/
theorem Sound.receive (hs : s.Sound each) {b : Buffer} (rate : Double)
    (hblocks : Increasing each (s.blocks ++ [b])) :
    ∃ f n, s.intake.numbering.receive b rate = (some f, n) ∧ f.toBuffer = b ∧
      ∀ first ∈ (s.blocks ++ [b]).head?,
        f.firstIndex.toNat = min (2 ^ 64 - 1) ((b.sequence.toNat - first.sequence.toNat) * each) ∧
        n.Reached each first.sequence.toNat b.sequence.toNat (s.blocks.length + 1) := by
  have hfits := hblocks.fits b (by simp)
  have heach := hblocks.size b (by simp)
  cases hlast : s.blocks.getLast? with
  | none =>
    have hnil := List.getLast?_eq_none_iff.mp hlast
    obtain ⟨htracker, hindex⟩ := hs.fresh hnil
    obtain ⟨f, n, hreceive, hbuffer, hzero, hreached⟩ :=
      Numbering.receive_first hfits rate htracker hindex
    refine ⟨f, n, hreceive, hbuffer, ?_⟩
    intro first hfirst
    rw [hnil] at hfirst ⊢
    cases hfirst
    rw [heach] at hreached
    exact ⟨by rw [hzero, Nat.sub_self, Nat.zero_mul]; rfl, hreached⟩
  | some last =>
    obtain ⟨before, hsplit⟩ := List.getLast?_eq_some_iff.mp hlast
    obtain ⟨first, hfirst⟩ : ∃ first, s.blocks.head? = some first := by
      rw [← Option.isSome_iff_exists, List.isSome_head?, hsplit]
      simp
    have hfirst' : (s.blocks ++ [b]).head? = some first := by
      rw [List.head?_append, hfirst, Option.some_or]
    obtain ⟨-, -, hnew⟩ := List.pairwise_append.mp hblocks.increasing
    have hlt : last.sequence < b.sequence :=
      hnew last (by simp [hsplit]) b (List.mem_singleton_self b)
    obtain ⟨f, n, hreceive, hbuffer, hindex, hreached⟩ :=
      Numbering.receive_next (hs.reached first hfirst last hlast) (UInt64.lt_iff_toNat_lt.mp hlt)
        hfits
        heach rate
    refine ⟨f, n, hreceive, hbuffer, ?_⟩
    rw [hfirst']
    rintro _ ⟨⟩
    exact ⟨hindex, hreached⟩

theorem step_sound (hs : s.Sound each) (event : Event)
    (hblocks : Increasing each (s.step event).blocks) : (s.step event).Sound each := by
  cases event with
  | exchange source => exact ⟨hs.fresh, hs.reached, hs.count, hs.placed⟩
  | call =>
    cases hread : s.intake.source.read with
    | mk outcome source =>
      cases outcome with
      | error e =>
        rw [step_of_error hread]
        exact ⟨hs.fresh, hs.reached, hs.count, hs.placed⟩
      | overflow =>
        rw [step_of_overflow hread]
        exact hs
      | ok b =>
        have hall : (s.step .call).blocks = s.blocks ++ [b] := by
          cases hreceive : s.intake.numbering.receive b source.info.rate with
          | mk made n => cases made <;> simp [step, process, hread, hreceive, Outcome.toOption]
        rw [hall] at hblocks
        obtain ⟨f, n, hreceive, hbuffer, hhere⟩ := hs.receive source.info.rate hblocks
        rw [step_of_block hread hreceive]
        exact hs.append hbuffer hhere

theorem Increasing.of_append {blocks new : List Buffer} (h : Increasing each (blocks ++ new)) :
    Increasing each blocks where
  fits := fun b hb => h.fits b (List.mem_append_left _ hb)
  size := fun b hb => h.size b (List.mem_append_left _ hb)
  increasing := (List.pairwise_append.mp h.increasing).1

/-- What was delivered stays delivered. -/
theorem step_blocks (s : Session) (event : Event) :
    ∃ new, (s.step event).blocks = s.blocks ++ new := by
  cases event with
  | exchange source => exact ⟨[], (List.append_nil _).symm⟩
  | call =>
    simp only [step]
    cases s.intake.process [] with
    | returned done => exact ⟨_, rfl⟩
    | waiting => exact ⟨[], (List.append_nil _).symm⟩
    | panicked => exact ⟨[], (List.append_nil _).symm⟩

theorem run_append (s : Session) (events : List Event) (event : Event) :
    s.run (events ++ [event]) = (s.run events).step event := by
  simp [run]

/-- By induction on the events from the last one. -/
theorem run_sound (intake : Intake) (events : List Event)
    (hblocks : Increasing each (run { intake := intake.start.2 } events).blocks) :
    (run { intake := intake.start.2 } events).Sound each := by
  induction events using List.reverseRecOn with
  | nil => exact start_sound each intake
  | append_singleton events event ih =>
    rw [run_append] at hblocks ⊢
    refine step_sound (ih ?_) event hblocks
    obtain ⟨new, hnew⟩ := step_blocks (run { intake := intake.start.2 } events) event
    exact (hnew ▸ hblocks).of_append

/-- **Positions follow numbers.** Whatever the numbers of the blocks are, as long as they increase,
every block becomes a frame; its position is the distance of its number from the first one, in
samples, cut at the largest word, and the gaps add up to the numbers that are missing. -/
theorem run_positions (intake : Intake) (events : List Event) (each : UInt32) :
    let run := run { intake := intake.start.2 } events
    Increasing each.toNat run.blocks →
      run.made.length = run.blocks.length ∧
      ∀ (k : Nat) (hk : k < run.blocks.length), ∃ frame totalGaps,
        run.made[k]? = some ⟨frame, totalGaps⟩ ∧ frame.toBuffer = run.blocks[k] ∧
        frame.firstIndex.toNat = min (2 ^ 64 - 1)
          ((run.blocks[k].sequence.toNat - run.blocks[0].sequence.toNat) * each.toNat) ∧
        run.blocks[0].sequence.toNat + totalGaps.toNat + k = run.blocks[k].sequence.toNat := by
  intro run hblocks
  have hs := run_sound intake events hblocks
  refine ⟨hs.count, ?_⟩
  intro k hk
  have hpos : 0 < run.blocks.length := by omega
  have hmost : k < run.made.length := hs.count ▸ hk
  have hfirst : run.blocks.head? = some run.blocks[0] := by
    rw [List.head?_eq_getElem?, List.getElem?_eq_getElem]
  have hmade : run.made[k]? = some run.made[k] := List.getElem?_eq_getElem _
  obtain ⟨hbuffer, hindex, htotal⟩ :=
    hs.placed _ hfirst k _ _ (List.getElem?_eq_getElem hk) hmade
  exact ⟨_, _, hmade, hbuffer, hindex, htotal⟩

/-- Three blocks of two samples; the jump to the last number is farther than a word can count in
samples. -/
theorem run_positions_jump :
    let block (sequence : UInt64) : Buffer :=
      { sequence, channels := 1, samplesPerChannel := 2, samples := [1, 2] }
    let source : ManualSource :=
      { channels := 1, rate := .zero, blocks := [block 7, block 9, block 0xFFFFFFFFFFFFFFFF] }
    let run := run { intake := (Intake.start { source := .manual source }).2 }
      [.call, .call, .call, .call]
    Increasing 2 run.blocks ∧ ∃ frame totalGaps, run.made[2]? = some ⟨frame, totalGaps⟩ ∧
      frame.toBuffer = block 0xFFFFFFFFFFFFFFFF ∧ frame.firstIndex = maxWord ∧
      7 + totalGaps.toNat + 2 = 2 ^ 64 - 1 := by
  intro block source run
  have hrun : run.blocks = [block 7, block 9, block 0xFFFFFFFFFFFFFFFF] := rfl
  have hblocks : Increasing 2 run.blocks := by
    rw [hrun]
    exact ⟨by decide, by decide, by decide⟩
  obtain ⟨-, hall⟩ := run_positions _ _ 2 hblocks
  obtain ⟨frame, totalGaps, hmade, hbuffer, hindex, htotal⟩ := hall 2 (by decide)
  have hcut : min (2 ^ 64 - 1) ((2 ^ 64 - 1 - 7) * 2) = 2 ^ 64 - 1 := by decide
  refine ⟨hblocks, frame, totalGaps, hmade, hbuffer, ?_, htotal⟩
  exact UInt64.toNat_inj.mp (hindex.trans hcut)

end Session

end Intake

end Oscilloscope
