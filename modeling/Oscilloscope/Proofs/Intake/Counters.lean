import Mathlib.Data.List.Induction
import Oscilloscope.Proofs.Intake.Blocks
import Oscilloscope.Proofs.Intake.Positions

/-!
# Oscilloscope.Proofs.Intake.Counters

What the counters of an intake say after any number of runs.

The frames and the malformed blocks are counted one by one, over all runs. The gaps are added up
afresh in every run, and the sum of the run replaces what was published before.

* `Intake.Life`: an intake that is started, called and stopped, with the gaps of each run.
* `latest`: the run that the published sum belongs to.
* `Intake.Life.Counts`: the counters in terms of the past. `Intake.Life.step_counts` is its step.
* `Intake.Life.Extends`: what is past stays past.
* `Intake.Life.run_counts`: the counters after any history.
* `Intake.Life.run_gaps_lost`: a second run with gaps makes the published sum fall.
-/

namespace Oscilloscope

/-- The gaps of the latest run with any, when the latest run comes first. -/
def latest (runs : List (List Nat)) : List Nat := (runs.find? (0 < ·.sum)).getD []

theorem latest_of_pos {gaps : List Nat} (h : 0 < gaps.sum) (runs : List (List Nat)) :
    latest (gaps :: runs) = gaps := by
  simp [latest, h]

theorem latest_of_zero {gaps : List Nat} (h : gaps.sum = 0) (runs : List (List Nat)) :
    latest (gaps :: runs) = latest runs := by
  simp [latest, h]

theorem sum_flatten_of_none {runs : List (List Nat)} (h : runs.countP (0 < ·.sum) = 0) :
    runs.flatten.sum = 0 := by
  rw [List.countP_eq_zero] at h
  induction runs with
  | nil => rfl
  | cons gaps runs ih =>
    rw [List.forall_mem_cons] at h
    have hgaps : gaps.sum = 0 := by simpa using h.1
    rw [List.flatten_cons, List.sum_append, hgaps, ih h.2]

theorem sum_latest {runs : List (List Nat)} (h : runs.countP (0 < ·.sum) ≤ 1) :
    (latest runs).sum = runs.flatten.sum := by
  induction runs with
  | nil => rfl
  | cons gaps runs ih =>
    rw [List.countP_cons] at h
    rw [List.flatten_cons, List.sum_append]
    by_cases hpos : 0 < gaps.sum
    · rw [if_pos (by simpa using hpos)] at h
      rw [latest_of_pos hpos, sum_flatten_of_none (by omega), Nat.add_zero]
    · have hzero : gaps.sum = 0 := by omega
      rw [latest_of_zero hzero, hzero, Nat.zero_add]
      exact ih (Nat.le_trans (Nat.le_add_right _ _) h)

namespace Intake

/-- What happens to an intake over several runs. -/
inductive Use where
  | start
  | call
  | stop
  /-- Others feed, fill or otherwise change its source. -/
  | exchange (source : Source)

/-- An intake with all of its past. -/
structure Life where
  intake : Intake
  /-- The blocks that its source delivered, over all runs. -/
  blocks : List Buffer := []
  /-- The gaps that were observed before the blocks of the present run, in order. -/
  present : List Nat := []
  /-- The same of the earlier runs, the latest first. -/
  earlier : List (List Nat) := []

namespace Life

def gaps (s : Life) : List (List Nat) := s.present :: s.earlier

/-- A call that breaks off delivers nothing. What it leaves of the source is an exchange. -/
def step (s : Life) : Use → Life
  | .start =>
    { s with intake := s.intake.start.2, present := [], earlier := s.present :: s.earlier }
  | .call =>
    match s.intake.process [] with
    | .returned done =>
      let read := s.intake.source.read.1.toOption.toList
      { s with
        intake := done.stage
        blocks := s.blocks ++ read
        present := s.present ++
          read.map fun b => (s.intake.numbering.tracker.gap b.sequence).toNat }
    | _ => s
  | .stop => { s with intake := s.intake.stop }
  | .exchange source => { s with intake := { s.intake with source } }

def run (s : Life) (uses : List Use) : Life := uses.foldl step s

/-- The counters, in terms of the past. -/
structure Counts (s : Life) : Prop where
  frames : s.intake.stats.frames.toNat = s.blocks.countP (·.Fits)
  malformed : s.intake.stats.malformed.toNat = s.blocks.countP (¬·.Fits)
  total : s.intake.numbering.tracker.totalGaps.toNat = min (2 ^ 64 - 1) s.present.sum
  gaps : s.intake.stats.gaps.toNat = min (2 ^ 64 - 1) (latest s.gaps).sum

variable {s : Life}

theorem new_counts (source : Source) : Counts { intake := { source } } where
  frames := rfl
  malformed := rfl
  total := rfl
  gaps := rfl

theorem Counts.observe (hs : s.Counts) {b : Buffer} {gap : UInt64}
    (hgap : s.intake.numbering.tracker.gap b.sequence = gap) :
    (s.intake.numbering.tracker.observe b.sequence).totalGaps.toNat =
        min (2 ^ 64 - 1) (s.present ++ [gap.toNat]).sum ∧
      (s.intake.numbering.note b).stats.gaps.toNat =
        min (2 ^ 64 - 1) (latest ((s.present ++ [gap.toNat]) :: s.earlier)).sum := by
  have hsum : (s.present ++ [gap.toNat]).sum = s.present.sum + gap.toNat := by
    rw [List.sum_append, List.sum_singleton]
  have htotal : (s.intake.numbering.tracker.observe b.sequence).totalGaps.toNat =
      min (2 ^ 64 - 1) (s.present ++ [gap.toNat]).sum := by
    rw [SequenceTracker.observe, hgap, toNat_addSaturating, hs.total, hsum]
    omega
  refine ⟨htotal, ?_⟩
  have hnote : (s.intake.numbering.note b).stats.gaps = if 0 < gap then
      (s.intake.numbering.tracker.observe b.sequence).totalGaps else s.intake.stats.gaps := by
    rw [Numbering.stats_note, hgap]
    rfl
  rw [hnote]
  by_cases hpos : 0 < gap
  · have hpos' : 0 < gap.toNat := UInt64.lt_iff_toNat_lt.mp hpos
    rw [if_pos hpos, latest_of_pos (by omega), htotal]
  · -- Without a gap the sum of the run is what it was, and so is what is published.
    have hzero : gap.toNat = 0 := Nat.eq_zero_of_not_pos fun h =>
      hpos (UInt64.lt_iff_toNat_lt.mpr h)
    have hkeep : (latest ((s.present ++ [gap.toNat]) :: s.earlier)).sum =
        (latest (s.present :: s.earlier)).sum := by
      by_cases hrun : 0 < s.present.sum
      · rw [latest_of_pos hrun, latest_of_pos (by omega), hsum, hzero, Nat.add_zero]
      · rw [latest_of_zero (by omega), latest_of_zero (by omega)]
    rw [if_neg hpos, hkeep, hs.gaps]
    rfl

theorem step_counts (hs : s.Counts) (use : Use) (hfew : (s.step use).blocks.length < 2 ^ 64) :
    (s.step use).Counts := by
  cases use with
  | start => exact ⟨hs.frames, hs.malformed, rfl, hs.gaps⟩
  | stop => exact ⟨hs.frames, hs.malformed, hs.total, hs.gaps⟩
  | exchange source => exact ⟨hs.frames, hs.malformed, hs.total, hs.gaps⟩
  | call =>
    have hprocesses := s.intake.processes []
    simp only [step] at hfew ⊢
    generalize s.intake.source.read.1.toOption = read at *
    generalize s.intake.process [] = attempt at *
    -- Each of the two counts is at most the number of blocks, so that none of them wraps.
    have hsuccessor (n : UInt64) (h : n.toNat < 2 ^ 64 - 1) : (n + 1).toNat = n.toNat + 1 := by
      rw [UInt64.toNat_add, UInt64.toNat_one, Nat.mod_eq_of_lt (by omega)]
    have hframes : s.blocks.countP (·.Fits) ≤ s.blocks.length := List.countP_le_length
    have hmalformed : s.blocks.countP (¬·.Fits) ≤ s.blocks.length := List.countP_le_length
    cases hprocesses with
    | brokenOff => exact hs
    | nothing =>
      simp only [Option.toList_none, List.map_nil, List.append_nil]
      exact ⟨hs.frames, hs.malformed, hs.total, hs.gaps⟩
    | frame received =>
      rename_i b source f n
      cases received with
      | frame fits buffer marked tracker frames malformed gaps =>
        obtain ⟨htotal, hgaps⟩ := hs.observe (b := b) rfl
        rw [Option.toList_some, List.length_append, List.length_singleton] at hfew
        refine ⟨?_, ?_, by rw [tracker]; exact htotal, by rw [stats, gaps]; exact hgaps⟩
        · rw [stats, frames, hsuccessor _ (by have := hs.frames; rw [stats] at this; omega),
            ← stats, hs.frames]
          simp [fits]
        · rw [stats, malformed, ← stats, hs.malformed]
          simp [fits]
    | discard received =>
      rename_i b source n
      cases received with
      | discard misfit tracker frames malformed gaps =>
        obtain ⟨htotal, hgaps⟩ := hs.observe (b := b) rfl
        rw [Option.toList_some, List.length_append, List.length_singleton] at hfew
        refine ⟨?_, ?_, by rw [tracker]; exact htotal, by rw [stats, gaps]; exact hgaps⟩
        · rw [stats, frames, ← stats, hs.frames]
          simp [misfit]
        · rw [stats, malformed, hsuccessor _ (by have := hs.malformed; rw [stats] at this; omega),
            ← stats, hs.malformed]
          simp [misfit]

/-- What is past stays past. -/
structure Extends (s s' : Life) : Prop where
  blocks : s.blocks.Sublist s'.blocks
  runs : s.gaps.countP (0 < ·.sum) ≤ s'.gaps.countP (0 < ·.sum)
  total : s.gaps.flatten.sum ≤ s'.gaps.flatten.sum

theorem Extends.refl (s : Life) : s.Extends s :=
  ⟨List.Sublist.refl _, Nat.le_refl _, Nat.le_refl _⟩

theorem Extends.trans {s s' s'' : Life} (h : s.Extends s') (h' : s'.Extends s'') :
    s.Extends s'' :=
  ⟨h.blocks.trans h'.blocks, Nat.le_trans h.runs h'.runs, Nat.le_trans h.total h'.total⟩

theorem step_extends (s : Life) (use : Use) : s.Extends (s.step use) := by
  cases use with
  | start => exact ⟨List.Sublist.refl _, by simp [step, gaps], by simp [step, gaps]⟩
  | stop => exact ⟨List.Sublist.refl _, Nat.le_refl _, Nat.le_refl _⟩
  | exchange source => exact ⟨List.Sublist.refl _, Nat.le_refl _, Nat.le_refl _⟩
  | call =>
    simp only [step]
    cases s.intake.process [] with
    | waiting => exact .refl s
    | panicked => exact .refl s
    | returned done =>
      refine ⟨List.sublist_append_left _ _, ?_, ?_⟩
      · simp only [gaps, List.countP_cons, List.sum_append, decide_eq_true_eq]
        split
        · apply Nat.le_of_eq
          rw [if_pos (by omega)]
        · exact Nat.add_le_add_left (Nat.zero_le _) _
      · simp only [gaps, List.flatten_cons, List.sum_append]
        omega

theorem run_extends (s : Life) (uses : List Use) : s.Extends (s.run uses) := by
  induction uses generalizing s with
  | nil => exact .refl s
  | cons use uses ih => exact (step_extends s use).trans (ih (s.step use))

theorem length_blocks_run (s : Life) (uses : List Use) :
    (s.run uses).blocks.length ≤ s.blocks.length + uses.length := by
  induction uses generalizing s with
  | nil => exact Nat.le_refl _
  | cons use uses ih =>
    have hstep : (s.step use).blocks.length ≤ s.blocks.length + 1 := by
      cases use with
      | call =>
        simp only [step]
        cases s.intake.process [] with
        | waiting => exact Nat.le_succ _
        | panicked => exact Nat.le_succ _
        | returned done =>
          rw [List.length_append]
          cases s.intake.source.read.1.toOption with
          | none => exact Nat.le_succ _
          | some b => exact Nat.le_refl _
      | _ => exact Nat.le_succ _
    have hrest := ih (s.step use)
    rw [List.length_cons]
    exact Nat.le_trans hrest (by omega)

theorem run_append (s : Life) (uses more : List Use) :
    s.run (uses ++ more) = (s.run uses).run more :=
  List.foldl_append

theorem run_counted (source : Source) (uses : List Use) (hfew : uses.length < 2 ^ 64) :
    (run { intake := { source } } uses).Counts := by
  induction uses using List.reverseRecOn with
  | nil => exact new_counts source
  | append_singleton uses use ih =>
    have hblocks := length_blocks_run { intake := { source } } (uses ++ [use])
    rw [List.length_append, List.length_singleton] at hfew
    rw [run_append] at hblocks ⊢
    refine step_counts (ih (by omega)) use ?_
    simp only [List.length_append, List.length_singleton, List.length_nil] at hblocks
    exact Nat.lt_of_le_of_lt hblocks (by omega)

/-- **Counters.** After any history, restarts included, the frames and the malformed blocks are
counted exactly and never fall. The published gaps are the sum of those of the latest run with any,
cut at the largest word. As long as only one run had gaps, that is the sum of all, and it has not
fallen either. -/
theorem run_counts (source : Source) (uses more : List Use)
    (hfew : (uses ++ more).length < 2 ^ 64) :
    let now := run { intake := { source } } uses
    let later := now.run more
    now.intake.stats.frames ≤ later.intake.stats.frames ∧
      now.intake.stats.malformed ≤ later.intake.stats.malformed ∧
      later.intake.stats.frames.toNat = later.blocks.countP (·.Fits) ∧
      later.intake.stats.malformed.toNat = later.blocks.countP (¬·.Fits) ∧
      later.intake.stats.gaps.toNat = min (2 ^ 64 - 1) (latest later.gaps).sum ∧
      (later.gaps.countP (0 < ·.sum) ≤ 1 →
        later.intake.stats.gaps.toNat = min (2 ^ 64 - 1) later.gaps.flatten.sum ∧
        now.intake.stats.gaps ≤ later.intake.stats.gaps) := by
  intro now later
  rw [List.length_append] at hfew
  have hnow : now.Counts := run_counted source uses (by omega)
  have hlater : later.Counts := by
    rw [show later = run { intake := { source } } (uses ++ more) from (run_append _ _ _).symm]
    exact run_counted source _ (by rwa [List.length_append])
  have hextends : now.Extends later := run_extends now more
  refine ⟨?_, ?_, hlater.frames, hlater.malformed, hlater.gaps, ?_⟩
  · rw [UInt64.le_iff_toNat_le, hnow.frames, hlater.frames]
    exact hextends.blocks.countP_le
  · rw [UInt64.le_iff_toNat_le, hnow.malformed, hlater.malformed]
    exact hextends.blocks.countP_le
  · intro hone
    have hone' := Nat.le_trans hextends.runs hone
    have htotal := hextends.total
    rw [UInt64.le_iff_toNat_le, hnow.gaps, hlater.gaps, sum_latest hone, sum_latest hone']
    omega

/-- Two runs, of which the second has a gap of three and a malformed block. -/
theorem run_counts_restart :
    let uses : List Use := [.start, .call, .call, .stop]
    let intake := ofPairs [(0, [1, 2]), (1, [3, 4]), (2, [5, 6]), (6, [7])]
    let now := run { intake } uses
    let later := now.run uses
    (uses ++ uses).length < 2 ^ 64 ∧ later.gaps.countP (0 < ·.sum) ≤ 1 ∧
      now.intake.stats.frames ≤ later.intake.stats.frames ∧
      later.intake.stats.frames.toNat = 3 ∧ later.intake.stats.malformed.toNat = 1 ∧
      later.intake.stats.gaps.toNat = 3 := by
  intro uses intake now later
  have hfew : (uses ++ uses).length < 2 ^ 64 := by decide
  have hone : later.gaps.countP (0 < ·.sum) ≤ 1 := by decide +kernel
  obtain ⟨hgrow, -, hframes, hmalformed, -, hgaps⟩ := run_counts _ uses uses hfew
  have hcounts : later.blocks.countP (·.Fits) = 3 ∧ later.blocks.countP (¬·.Fits) = 1 ∧
      min (2 ^ 64 - 1) later.gaps.flatten.sum = 3 := by decide +kernel
  exact ⟨hfew, hone, hgrow, hframes.trans hcounts.1, hmalformed.trans hcounts.2.1,
    (hgaps hone).1.trans hcounts.2.2⟩

/-- Five numbers are skipped in the first run and one in the second. The one replaces the five. -/
theorem run_gaps_lost :
    let uses : List Use := [.start, .call, .call]
    let intake := ofPairs [(0, [1, 2]), (6, [3, 4]), (7, [5, 6]), (9, [7, 8])]
    let now := run { intake } uses
    let later := now.run uses
    now.intake.stats.gaps = 5 ∧ later.intake.stats.gaps = 1 ∧ later.gaps.flatten.sum = 6 := by
  decide +kernel

end Life
end Intake

end Oscilloscope
