import Oscilloscope.Proofs.Frame.Channels
import Oscilloscope.Stage.Intake

/-!
# Oscilloscope.Proofs.Intake.Blocks

What an intake does with one block, well formed or not.

A block is looked at twice: first its number, which may reveal a gap, and then its shape, which
decides whether it becomes a frame. A block that is discarded has been noted all the same.

* `SequenceTracker.gap_pos`: when a number reveals a gap.
* `Numbering.Receives`, `Numbering.receives`: the two things that can come of a block.
* `Intake.Processes`, `Intake.processes`: the ways a call can end.
-/

namespace Oscilloscope

/-- Numbers are missing before the frame. -/
def Frame.IsMarked (f : Frame) : Prop := f.flags &&& Frame.discontinuity ≠ 0

instance (f : Frame) : Decidable f.IsMarked := inferInstanceAs (Decidable (_ ≠ _))

/-- Every number but the expected one reveals a gap, and none does as long as none is expected. -/
theorem SequenceTracker.gap_pos (t : SequenceTracker) (sequence : UInt64) :
    0 < t.gap sequence ↔ ∃ e, t.expected = some e ∧ sequence ≠ e := by
  unfold gap
  cases t.expected with
  | none => simp
  | some e =>
    simp only [Option.some.injEq, exists_eq_left']
    split
    · rename_i hahead
      have hlt := UInt64.lt_iff_toNat_lt.mp hahead
      have hsub := UInt64.toNat_sub_of_le _ _ (UInt64.le_of_lt hahead)
      refine ⟨fun _ => fun heq => UInt64.lt_irrefl e (heq ▸ hahead), fun _ => ?_⟩
      rw [UInt64.lt_iff_toNat_lt, hsub, UInt64.toNat_zero]
      omega
    · rename_i hnot
      split
      · rename_i hback
        refine ⟨fun _ => fun heq => UInt64.lt_irrefl e (heq ▸ hback), fun _ => by decide⟩
      · rename_i hnot'
        have heq := UInt64.le_antisymm (UInt64.not_lt.mp hnot) (UInt64.not_lt.mp hnot')
        simp [heq]

namespace Numbering

variable {n : Numbering} {b : Buffer}

theorem tracker_note (n : Numbering) (b : Buffer) :
    (n.note b).tracker = n.tracker.observe b.sequence := by
  unfold note
  dsimp only
  split
  · rfl
  · rfl

theorem stats_note (n : Numbering) (b : Buffer) :
    (n.note b).stats = { n.stats with
      gaps := if 0 < n.tracker.gap b.sequence then (n.tracker.observe b.sequence).totalGaps
              else n.stats.gaps } := by
  unfold note
  dsimp only
  split
  · rfl
  · rfl

/-- What can come of a block. -/
inductive Receives (n : Numbering) (b : Buffer) : Option Frame × Numbering → Prop where
  /-- It is well formed and becomes a frame, which is marked if there is a gap before it. -/
  | frame {f : Frame} {n' : Numbering} (fits : b.Fits) (buffer : f.toBuffer = b)
      (marked : f.IsMarked ↔ 0 < n.tracker.gap b.sequence)
      (tracker : n'.tracker = n.tracker.observe b.sequence)
      (frames : n'.stats.frames = n.stats.frames + 1)
      (malformed : n'.stats.malformed = n.stats.malformed)
      (gaps : n'.stats.gaps = (n.note b).stats.gaps) : Receives n b (some f, n')
  /-- It is discarded. -/
  | discard {n' : Numbering} (misfit : ¬b.Fits)
      (tracker : n'.tracker = n.tracker.observe b.sequence)
      (frames : n'.stats.frames = n.stats.frames)
      (malformed : n'.stats.malformed = n.stats.malformed + 1)
      (gaps : n'.stats.gaps = (n.note b).stats.gaps) : Receives n b (none, n')

theorem receives (n : Numbering) (b : Buffer) (rate : Double) :
    n.Receives b (n.receive b rate) := by
  have htracker := n.tracker_note b
  have hframes : (n.note b).stats.frames = n.stats.frames := by rw [stats_note]
  have hmalformed : (n.note b).stats.malformed = n.stats.malformed := by rw [stats_note]
  by_cases hfits : b.Fits
  · have hmarked : (if 0 < n.tracker.gap b.sequence then 0 ||| Frame.discontinuity else 0) &&&
        Frame.discontinuity ≠ 0 ↔ 0 < n.tracker.gap b.sequence := by
      split
      · rename_i hgap
        exact ⟨fun _ => hgap, fun _ => by decide⟩
      · rename_i hnone
        exact ⟨fun h => absurd rfl h, fun h => absurd h hnone⟩
    unfold receive Frame.ofBuffer?
    rw [Frame.ofSamples?_of_fits hfits]
    exact .frame hfits rfl hmarked htracker (congrArg (· + 1) hframes) hmalformed rfl
  · have herror : ∃ e, Frame.ofBuffer? b rate (n.note b).nextIndex = .error e := by
      unfold Frame.ofBuffer? Frame.ofSamples? Frame.ofStorage?
      exact ⟨_, congrArg _ (dif_neg hfits)⟩
    obtain ⟨e, herror⟩ := herror
    unfold receive
    simp only [herror]
    exact .discard hfits htracker hframes (congrArg (· + 1) hmalformed) rfl

end Numbering

namespace Intake

/-- How a call can end: what was read, and what the call returned. A call whose read aborts breaks
off. -/
inductive Processes (s : Intake) (batch : List Frame) :
    Option Buffer → Attempt (Processed Intake) → Prop where
  | nothing {source : Source} {result : StageResult} :
      Processes s batch none (.returned ⟨{ s with source }, result, batch, []⟩)
  | frame {b : Buffer} {source : Source} {f : Frame} {n : Numbering}
      (received : s.numbering.Receives b (some f, n)) :
      Processes s batch (some b) (.returned ⟨⟨source, n⟩, .ok, batch, [f]⟩)
  | discard {b : Buffer} {source : Source} {n : Numbering}
      (received : s.numbering.Receives b (none, n)) :
      Processes s batch (some b) (.returned ⟨⟨source, n⟩, .noData, batch, []⟩)
  | brokenOff : Processes s batch none .panicked

theorem processes (s : Intake) (batch : List Frame) :
    s.Processes batch s.source.read.1.toOption (s.process batch) := by
  unfold process
  cases hread : s.source.read with
  | mk outcome source =>
    cases outcome with
    | overflow => exact .brokenOff
    | error e => cases e <;> exact .nothing
    | ok b =>
      have hreceives := s.numbering.receives b source.info.rate
      cases hreceive : s.numbering.receive b source.info.rate with
      | mk made n =>
        rw [hreceive] at hreceives
        cases made with
        | none =>
          simp only [hreceive]
          exact .discard hreceives
        | some f =>
          simp only [hreceive]
          exact .frame hreceives

/-- An intake of numbered blocks for one channel and two samples. A block with another number of
samples is malformed. -/
def ofPairs (blocks : List (UInt64 × List Sample)) : Intake :=
  let source : ManualSource :=
    { channels := 1, rate := .zero
      blocks := blocks.map fun b =>
        { sequence := b.1, channels := 1, samplesPerChannel := 2, samples := b.2 } }
  { source := .manual source }

end Intake

end Oscilloscope
