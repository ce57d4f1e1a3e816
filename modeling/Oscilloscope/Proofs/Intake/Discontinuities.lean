import Mathlib.Data.List.Basic
import Oscilloscope.Proofs.Intake.Blocks
import Oscilloscope.Proofs.Intake.Positions

/-!
# Oscilloscope.Proofs.Intake.Discontinuities

Which frames of an intake are marked as following a gap, when some blocks are malformed.

The gap before a block is looked for before the block is checked. So the number of a block that is
discarded counts as seen, and the mark for a gap before it goes with it.

* `Skipped`: a number whose predecessor is missing from the blocks.
* `Intake.Session.Marks`: the marked frames are those with such a number. Every event keeps this as
  long as the numbers increase.
* `Intake.Session.run_marks`: the rule seen from the frames alone, and the discarded blocks that
  make it fail.
* `Intake.Session.run_unmarked`: such a run.
-/

namespace Oscilloscope

/-- Blocks came before `sequence`, but not the one with the number right before it. -/
def Skipped (blocks : List Buffer) (sequence : UInt64) : Prop :=
  (∃ b ∈ blocks, b.sequence < sequence) ∧ ∀ b ∈ blocks, b.sequence.toNat + 1 ≠ sequence.toNat

theorem skipped_concat {blocks : List Buffer} {b : Buffer} {sequence : UInt64}
    (hle : sequence ≤ b.sequence) :
    Skipped (blocks ++ [b]) sequence ↔ Skipped blocks sequence := by
  have hle' := UInt64.le_iff_toNat_le.mp hle
  unfold Skipped
  rw [List.forall_mem_append, List.forall_mem_singleton]
  constructor
  · rintro ⟨⟨old, hold, hlt⟩, hall, -⟩
    refine ⟨⟨old, ?_, hlt⟩, hall⟩
    rcases List.mem_append.mp hold with hold | hnew
    · exact hold
    · rw [List.mem_singleton.mp hnew] at hlt
      exact absurd hle (UInt64.not_le.mpr hlt)
  · rintro ⟨⟨old, hold, hlt⟩, hall⟩
    exact ⟨⟨old, List.mem_append_left _ hold, hlt⟩, hall, by omega⟩

/-- The tracker finds a gap before a block if its number is one that was skipped to. -/
theorem SequenceTracker.gap_pos_iff_skipped {t : SequenceTracker} {blocks : List Buffer}
    {b : Buffer} (hexpected : t.expected = blocks.getLast?.map (·.sequence + 1))
    (hblocks : (blocks ++ [b]).Pairwise fun b later => b.sequence < later.sequence) :
    0 < t.gap b.sequence ↔ Skipped blocks b.sequence := by
  obtain ⟨hold, -, hnew⟩ := List.pairwise_append.mp hblocks
  rw [t.gap_pos, hexpected]
  rcases List.eq_nil_or_concat' blocks with rfl | ⟨before, last, rfl⟩
  · simp [Skipped]
  have hlast := UInt64.lt_iff_toNat_lt.mp (hnew last (by simp) b (by simp))
  have hword := b.sequence.toNat_lt
  have hnext : (last.sequence + 1).toNat = last.sequence.toNat + 1 := by
    rw [UInt64.toNat_add, UInt64.toNat_one, Nat.mod_eq_of_lt (by omega)]
  obtain ⟨-, -, hbefore⟩ := List.pairwise_append.mp hold
  have hgap : (∃ e, (before ++ [last]).getLast?.map (·.sequence + 1) = some e ∧ b.sequence ≠ e) ↔
      last.sequence.toNat + 1 ≠ b.sequence.toNat := by
    rw [List.getLast?_concat, Option.map_some, ← hnext, ne_eq, UInt64.toNat_inj]
    simp only [Option.some.injEq, exists_eq_left']
    exact ne_comm
  rw [hgap]
  constructor
  · intro hne
    refine ⟨⟨last, by simp, UInt64.lt_iff_toNat_lt.mpr hlast⟩, ?_⟩
    rw [List.forall_mem_append, List.forall_mem_singleton]
    refine ⟨?_, hne⟩
    intro old hmem
    have := UInt64.lt_iff_toNat_lt.mp (hbefore old hmem last (by simp))
    omega
  · rintro ⟨-, hnone⟩
    exact hnone last (by simp)

namespace Intake
namespace Session

/-- The tracker expects the number behind the last block, the frames are those of the well-formed
blocks, and they are marked if numbers are missing before them. -/
structure Marks (s : Session) : Prop where
  expected : s.intake.numbering.tracker.expected = s.blocks.getLast?.map (·.sequence + 1)
  made : s.made.map (·.frame.toBuffer) = s.blocks.filter (·.Fits)
  marked : ∀ e ∈ s.made, e.frame.IsMarked ↔ Skipped s.blocks e.frame.sequence

variable {s : Session}

theorem start_marks (intake : Intake) : Marks { intake := intake.start.2 } where
  expected := rfl
  made := rfl
  marked := fun _ he => absurd he List.not_mem_nil

theorem Marks.mem (hs : s.Marks) {e : Emission} (he : e ∈ s.made) :
    e.frame.toBuffer ∈ s.blocks := by
  have hmem := List.mem_map_of_mem (f := fun e : Emission => e.frame.toBuffer) he
  rw [hs.made] at hmem
  exact (List.mem_filter.mp hmem).1

/-- The marks of the frames so far stay true when a block with a larger number comes. -/
theorem Marks.old (hs : s.Marks) {b : Buffer}
    (hblocks : (s.blocks ++ [b]).Pairwise fun b later => b.sequence < later.sequence) :
    ∀ e ∈ s.made, e.frame.IsMarked ↔ Skipped (s.blocks ++ [b]) e.frame.sequence := by
  intro e he
  obtain ⟨-, -, hnew⟩ := List.pairwise_append.mp hblocks
  have hlt : e.frame.sequence < b.sequence := hnew _ (hs.mem he) b (by simp)
  rw [skipped_concat (UInt64.le_of_lt hlt)]
  exact hs.marked e he

theorem step_marks (hs : s.Marks) (event : Event)
    (hblocks : (s.step event).blocks.Pairwise fun b later => b.sequence < later.sequence) :
    (s.step event).Marks := by
  cases event with
  | exchange source => exact ⟨hs.expected, hs.made, hs.marked⟩
  | call =>
    have hprocesses := s.intake.processes []
    simp only [step] at hblocks ⊢
    generalize s.intake.source.read.1.toOption = read at *
    generalize s.intake.process [] = attempt at *
    cases hprocesses with
    | brokenOff => exact hs
    | nothing =>
      simp only [Option.toList_none, List.append_nil, List.map_nil]
      exact ⟨hs.expected, hs.made, hs.marked⟩
    | discard received =>
      rename_i b source n
      cases received with
      | discard misfit tracker =>
        refine ⟨?_, ?_, ?_⟩
        · simp [tracker, SequenceTracker.observe]
        · simp [hs.made, misfit]
        · simpa using hs.old hblocks
    | frame received =>
      rename_i b source f n
      cases received with
      | frame fits buffer marked tracker =>
        have hnumber : f.sequence = b.sequence := congrArg Buffer.sequence buffer
        refine ⟨?_, ?_, ?_⟩
        · simp [tracker, SequenceTracker.observe]
        · simp [hs.made, fits, buffer]
        · simp only [List.map_singleton, List.forall_mem_append, List.forall_mem_singleton]
          refine ⟨hs.old hblocks, ?_⟩
          rw [hnumber, Option.toList_some, skipped_concat (UInt64.le_refl _), marked,
            SequenceTracker.gap_pos_iff_skipped hs.expected hblocks]

theorem run_marked (intake : Intake) (events : List Event)
    (hblocks : (run { intake := intake.start.2 } events).blocks.Pairwise
      fun b later => b.sequence < later.sequence) :
    (run { intake := intake.start.2 } events).Marks := by
  -- The last event comes off first, because that is where the list of blocks grows.
  induction events using List.reverseRecOn with
  | nil => exact start_marks intake
  | append_singleton events event ih =>
    rw [run_append] at hblocks ⊢
    refine step_marks (ih ?_) event hblocks
    obtain ⟨new, hnew⟩ := step_blocks (run { intake := intake.start.2 } events) event
    exact (List.pairwise_append.mp (hnew ▸ hblocks)).1

theorem Marks.increasing (hs : s.Marks)
    (hblocks : s.blocks.Pairwise fun b later => b.sequence < later.sequence) {i j : Nat}
    {e later : Emission} (he : s.made[i]? = some e) (hlater : s.made[j]? = some later)
    (hij : i < j) : e.frame.sequence.toNat < later.frame.sequence.toNat := by
  have hframes : (s.made.map (·.frame.toBuffer)).Pairwise
      fun b later => b.sequence < later.sequence := hs.made ▸ hblocks.filter _
  rw [List.pairwise_map] at hframes
  obtain ⟨_, rfl⟩ := List.getElem?_eq_some_iff.mp he
  obtain ⟨_, rfl⟩ := List.getElem?_eq_some_iff.mp hlater
  exact UInt64.lt_iff_toNat_lt.mp (List.pairwise_iff_getElem.mp hframes _ _ _ _ hij)

/-- A well-formed block right before a frame is that of the frame before. -/
theorem Marks.predecessor (hs : s.Marks)
    (hblocks : s.blocks.Pairwise fun b later => b.sequence < later.sequence) {k : Nat}
    {e next : Emission} (he : s.made[k]? = some e) (hnext : s.made[k + 1]? = some next)
    {b : Buffer} (hb : b ∈ s.blocks) (hfits : b.Fits)
    (hbefore : b.sequence.toNat + 1 = next.frame.sequence.toNat) :
    e.frame.sequence = b.sequence := by
  have hmem : b ∈ s.made.map (·.frame.toBuffer) := by
    rw [hs.made]
    exact List.mem_filter.mpr ⟨hb, by simpa using hfits⟩
  obtain ⟨other, hother, rfl⟩ := List.mem_map.mp hmem
  obtain ⟨j, hj⟩ := List.mem_iff_getElem?.mp hother
  have hnumber : other.frame.sequence.toNat + 1 = next.frame.sequence.toNat := hbefore
  -- Between the two frames there is no place, and outside of them no number left.
  rcases Nat.lt_trichotomy j k with hjk | rfl | hjk
  · have := hs.increasing hblocks hj he hjk
    have := hs.increasing hblocks he hnext (Nat.lt_succ_self k)
    omega
  · rw [he] at hj
    cases hj
    rfl
  · rcases Nat.lt_or_eq_of_le (Nat.succ_le_of_lt hjk) with hafter | rfl
    · have := hs.increasing hblocks hnext hj hafter
      omega
    · rw [hnext] at hj
      cases hj
      omega

/-- **Marked gaps.** As long as the numbers of the blocks increase, the well-formed blocks become
frames, in order, and a frame behind another is marked if its number is not the next one, unless a
block with the number right before it came and was discarded. -/
theorem run_marks (intake : Intake) (events : List Event) :
    let run := run { intake := intake.start.2 } events
    (run.blocks.Pairwise fun b later => b.sequence < later.sequence) →
      run.made.map (·.frame.toBuffer) = run.blocks.filter (·.Fits) ∧
      ∀ (k : Nat) (e next : Emission), run.made[k]? = some e → run.made[k + 1]? = some next →
        (next.frame.IsMarked ↔
          next.frame.sequence.toNat ≠ e.frame.sequence.toNat + 1 ∧
          ∀ b ∈ run.blocks, ¬b.Fits → b.sequence.toNat + 1 ≠ next.frame.sequence.toNat) := by
  intro run hblocks
  have hs : run.Marks := run_marked intake events hblocks
  refine ⟨hs.made, ?_⟩
  intro k e next he hnext
  rw [hs.marked next (List.mem_of_getElem? hnext)]
  constructor
  · rintro ⟨-, hnone⟩
    exact ⟨fun heq => hnone _ (hs.mem (List.mem_of_getElem? he)) heq.symm,
      fun b hb _ => hnone b hb⟩
  · rintro ⟨hne, hdiscarded⟩
    refine ⟨⟨e.frame.toBuffer, hs.mem (List.mem_of_getElem? he), ?_⟩, ?_⟩
    · exact UInt64.lt_iff_toNat_lt.mpr
        (hs.increasing hblocks he hnext (Nat.lt_succ_self k))
    · intro b hb hbefore
      by_cases hfits : b.Fits
      · have hsame := hs.predecessor hblocks he hnext hb hfits hbefore
        exact hne (by rw [hsame]; exact hbefore.symm)
      · exact hdiscarded b hb hfits hbefore

/-- Of the blocks 0, 1, 2 and 5, block 1 is discarded: frame 2 is not marked, frame 5 is. -/
theorem run_marks_four :
    let intake := ofPairs [(0, [1, 2]), (1, [3]), (2, [4, 5]), (5, [6, 7])]
    let run := run { intake := intake.start.2 } [.call, .call, .call, .call]
    (run.blocks.Pairwise fun b later => b.sequence < later.sequence) ∧
      ∃ first second third, run.made = [first, second, third] ∧
        ¬second.frame.IsMarked ∧ third.frame.IsMarked := by
  intro intake run
  have hblocks : run.blocks.Pairwise fun b later => b.sequence < later.sequence := by decide +kernel
  obtain ⟨-, hmarks⟩ := run_marks _ _ hblocks
  refine ⟨hblocks, _, _, _, rfl, ?_, ?_⟩
  · rw [hmarks 0 _ _ rfl rfl]
    decide +kernel
  · rw [hmarks 1 _ _ rfl rfl]
    decide +kernel

/-- Of the blocks 0, 3 and 4, block 3 is discarded. Nothing tells that the blocks 1 and 2 were
skipped: the mark for them went with block 3. -/
theorem run_unmarked :
    let intake := ofPairs [(0, [1, 2]), (3, [3]), (4, [4, 5])]
    let run := run { intake := intake.start.2 } [.call, .call, .call]
    (run.blocks.Pairwise fun b later => b.sequence < later.sequence) ∧
      ∃ e next, run.made = [e, next] ∧ e.frame.sequence = 0 ∧ next.frame.sequence = 4 ∧
        ¬next.frame.IsMarked := by
  intro intake run
  exact ⟨by decide +kernel, _, _, rfl, rfl, rfl, by decide +kernel⟩

end Session
end Intake

end Oscilloscope
