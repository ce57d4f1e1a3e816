import Oscilloscope.Proofs.Envelope.SelfCheck

/-!
# Oscilloscope.Proofs.Envelope.Verdicts

What a report says, for a verifier with any past.

A verifier is given periods, cleared, and asked for reports in any order. What it remembers between
the calls are window sets, under their window lengths. They are those of the installed period at
any time, so that a report does not depend on which of them were there before. There is no report
where the longer window is no index: the call aborts.

* `Call`, `Verifier.run`, `installed`: the calls and what they leave.
* `Resembles`, `Plausible`: what an accepted pair is, told by the windows of the period alone.
* `plausible_iff`: the two window sets hold exactly that.
* `verify_exact`: all of it, for every past. `verify_overflows`: a call without a report.
-/

namespace Oscilloscope
namespace Envelope

open Decimation

/-! ## Calls -/

inductive Call where
  | setPeriod (period : List Sample)
  | clear
  | verify (decimated : List Sample) (buckets raw : Nat)

/-- The period after a call. -/
def Call.install (period : List Sample) : Call → List Sample
  | .setPeriod p => p
  | .clear => []
  | .verify _ _ _ => period

/-- The period that some calls leave installed. -/
def installed (calls : List Call) : List Sample := calls.foldl Call.install []

namespace Verifier

def call (v : Verifier) : Call → Verifier
  | .setPeriod period => v.setPeriod period
  | .clear => v.clear
  | .verify decimated buckets raw => v.verified decimated buckets raw

def run (v : Verifier) (calls : List Call) : Verifier := calls.foldl call v

variable {v : Verifier}

theorem sound_withTolerance (t : UInt16) : (withTolerance t).Sound := by
  intro window keys h
  cases h

theorem Sound.call (h : v.Sound) (c : Call) :
    (v.call c).Sound ∧ (v.call c).period = c.install v.period ∧
      (v.call c).tolerance = v.tolerance := by
  cases c with
  | setPeriod period => exact ⟨sound_setPeriod v period, rfl, rfl⟩
  | clear => exact ⟨sound_setPeriod v [], rfl, rfl⟩
  | verify decimated buckets raw => exact h.verified decimated buckets raw

theorem Sound.run (h : v.Sound) (calls : List Call) :
    (v.run calls).Sound ∧ (v.run calls).period = calls.foldl Call.install v.period ∧
      (v.run calls).tolerance = v.tolerance := by
  induction calls generalizing v with
  | nil => exact ⟨h, rfl, rfl⟩
  | cons c calls ih =>
    obtain ⟨hsound, hperiod, htolerance⟩ := h.call c
    obtain ⟨hsound', hperiod', htolerance'⟩ := ih hsound
    rw [hperiod] at hperiod'
    exact ⟨hsound', hperiod', htolerance'.trans htolerance⟩

end Verifier

/-! ## Plausible pairs -/

section Plausible

variable {period : List Sample} {t : UInt16} {window share : Nat} {lo hi : Sample}

/-- Some window of `window` samples over the repetition of `period` has extremes within the
tolerance of `lo` and `hi`. -/
def Resembles (period : List Sample) (t : UInt16) (window : Nat) (lo hi : Sample) : Prop :=
  ∃ start < period.length, ∃ l h, Spans (repeated period start window) l h ∧
    Within t l lo ∧ Within t h hi

/-- Some window as long as the share of a bucket, or one longer, resembles the pair. -/
def Plausible (period : List Sample) (t : UInt16) (share : Nat) (lo hi : Sample) : Prop :=
  Resembles period t share lo hi ∨ Resembles period t (share + 1) lo hi

theorem resembles_iff_extremes : Resembles period t window lo hi ↔
    ∃ start < period.length, 0 < window ∧
      Within t (extremes (repeated period start window)).1 lo ∧
      Within t (extremes (repeated period start window)).2 hi := by
  constructor
  · rintro ⟨start, hstart, l, h, hspans, hlo, hhi⟩
    have hlength := List.length_pos_of_mem hspans.low_mem
    rw [length_repeated] at hlength
    refine ⟨start, hstart, hlength, ?_⟩
    rw [hspans.extremes_eq]
    exact ⟨hlo, hhi⟩
  · rintro ⟨start, hstart, hw, hlo, hhi⟩
    have hne : repeated period start window ≠ [] := by
      apply List.ne_nil_of_length_pos
      rwa [length_repeated]
    exact ⟨start, hstart, _, _, spans_extremes hne, hlo, hhi⟩

instance : Decidable (Resembles period t window lo hi) :=
  decidable_of_iff' _ resembles_iff_extremes

instance : Decidable (Plausible period t share lo hi) :=
  inferInstanceAs (Decidable (_ ∨ _))

theorem resembles_iff (hne : period ≠ []) (hw : 0 < window) : Resembles period t window lo hi ↔
    ∃ l h, Within t l lo ∧ Within t h hi ∧ packPair l h ∈ windowSet period window := by
  constructor
  · rintro ⟨start, hstart, l, h, hspans, hlo, hhi⟩
    exact ⟨l, h, hlo, hhi, (mem_windowSet_iff_spans hne hw).mpr ⟨start, hstart, l, h, hspans, rfl⟩⟩
  · rintro ⟨l, h, hlo, hhi, hmem⟩
    obtain ⟨start, hstart, l', h', hspans, hkey⟩ := (mem_windowSet_iff_spans hne hw).mp hmem
    obtain ⟨rfl, rfl⟩ := packPair_inj.mp hkey
    exact ⟨start, hstart, l, h, hspans, hlo, hhi⟩

theorem plausible_iff (hne : period ≠ []) (hshare : 0 < share) : Plausible period t share lo hi ↔
    withinTolerance t (windowSet period share).toArray (windowSet period (share + 1)).toArray
      lo hi = true := by
  simp only [withinTolerance_iff, search_windowSet_iff]
  rw [Plausible, resembles_iff hne hshare, resembles_iff hne (Nat.succ_pos share)]
  constructor
  · rintro (⟨l, h, hlo, hhi, hmem⟩ | ⟨l, h, hlo, hhi, hmem⟩)
    · exact ⟨l, h, hlo, hhi, .inl hmem⟩
    · exact ⟨l, h, hlo, hhi, .inr hmem⟩
  · rintro ⟨l, h, hlo, hhi, hmem | hmem⟩
    · exact .inl ⟨l, h, hlo, hhi, hmem⟩
    · exact .inr ⟨l, h, hlo, hhi, hmem⟩

end Plausible

/-! ## Reports -/

namespace Verifier

variable {v v' : Verifier}

/-- What is remembered does not show in a report. -/
theorem Sound.report_congr (h : v.Sound) (h' : v'.Sound) (hperiod : v.period = v'.period)
    (htolerance : v.tolerance = v'.tolerance) (decimated : List Sample) (buckets raw : Nat) :
    (v.verify decimated buckets raw).map (·.1) = (v'.verify decimated buckets raw).map (·.1) := by
  have hready : v.isReady = v'.isReady := by rw [isReady, isReady, hperiod]
  rw [Verifier.verify, Verifier.verify, hready]
  split
  · rfl
  · cases index? (buckets * 2) with
    | none => rfl
    | some needed =>
      simp only [Option.bind_eq_bind, Option.bind_some]
      split
      · rfl
      · cases index? (max (raw / buckets) 1 + 1) with
        | none => rfl
        | some next =>
          simp only [Option.bind_some, Option.map_some, h.count_report, h'.count_report, hperiod,
            htolerance]

theorem Sound.count_eq (h : v.Sound) (hne : v.period ≠ []) {decimated : List Sample}
    {buckets share : Nat} (hshare : 0 < share) (henough : 2 * buckets ≤ decimated.length) :
    ∃ v', v.count decimated buckets share (share + 1) =
      (.ofCount buckets ((List.range buckets).countP fun b =>
        decide (Plausible v.period v.tolerance share
          (decimated.getD (2 * b) 0) (decimated.getD (2 * b + 1) 0))), v') := by
  refine ⟨_, Prod.ext ?_ rfl⟩
  rw [h.count_report, take_pairs henough, List.countP_map]
  congr 1
  apply List.countP_congr
  intro b _
  rw [decide_eq_true_iff, plausible_iff hne hshare]
  rfl

end Verifier

/-- **Reports are exact.** Whatever calls came before, with `period` the one that they leave
installed:

* a call answers as that of a verifier which has just been given the period, so nothing that is
  remembered shows in it;
* where there is something to check and the longer window is an index, there is a report. It counts
  the buckets whose pair of samples is resembled by a window as long as the whole share of a bucket,
  or one longer;
* where the longer window is no index, the call aborts. -/
theorem verify_exact (t : UInt16) (calls : List Call) :
    let v := (Verifier.withTolerance t).run calls
    let period := installed calls
    v.period = period ∧
    (∀ decimated buckets raw, (v.verify decimated buckets raw).map (·.1) =
      (((Verifier.withTolerance t).setPeriod period).verify decimated buckets raw).map (·.1)) ∧
    ∀ decimated buckets raw, period ≠ [] → 1 ≤ buckets → 2 * buckets < indexLimit → 1 ≤ raw →
      2 * buckets ≤ decimated.length →
      let share := max 1 (raw / buckets)
      (share + 1 < indexLimit → ∃ report v', v.verify decimated buckets raw = some (report, v') ∧
        report.isSkipped = false ∧ report.total = buckets ∧
        report.matched = (List.range buckets).countP fun b =>
          decide (Plausible period t share
            (decimated.getD (2 * b) 0) (decimated.getD (2 * b + 1) 0))) ∧
      (indexLimit ≤ share + 1 → v.verify decimated buckets raw = none) := by
  intro v period
  obtain ⟨hsound, hperiod, htolerance⟩ := (Verifier.sound_withTolerance t).run calls
  have hinstalled : v.period = period := hperiod
  have hsame : v.tolerance = t := htolerance
  refine ⟨hinstalled, ?_, ?_⟩
  · intro decimated buckets raw
    have hfresh := (Verifier.withTolerance t).sound_setPeriod period
    exact hsound.report_congr hfresh hinstalled hsame _ _ _
  · intro decimated buckets raw hne hpos hdouble hraw henough share
    have hshare : max (raw / buckets) 1 = share := Nat.max_comm _ _
    have hone : 0 < share := Nat.lt_of_lt_of_le Nat.one_pos (Nat.le_max_left _ _)
    have hasks : v.Asks decimated buckets raw :=
      ⟨hinstalled ▸ hne, by omega, by omega, by omega⟩
    constructor
    · intro hlonger
      have hverify := Verifier.verify_of_inRange hasks ⟨by omega, by rwa [hshare]⟩
      obtain ⟨v', hcount⟩ := hsound.count_eq (hinstalled ▸ hne) hone henough
      rw [hinstalled, hsame] at hcount
      rw [hshare] at hverify
      exact ⟨_, v', hverify.trans (congrArg some hcount), isSkipped_ofCount _ _, rfl, rfl⟩
    · intro hlong
      exact Verifier.verify_of_long hasks (by omega) (by rwa [hshare])

/-- A period at both ends of the sample range, after another one with sets under the same window
lengths. Of three pairs one is in a window, one is beside a window by the tolerance, and one is in
no window. -/
theorem verify_exact_limits :
    let v := (Verifier.withTolerance 1).run [.setPeriod [5, 5], .verify [5, 5] 1 1,
      .setPeriod [-32768, 32767, 0], .verify [0, 0, 0, 0] 2 5]
    ∃ report v', v.verify [-32768, 0, -32767, 32767, 3, 3] 3 4 = some (report, v') ∧
      report.matched = 2 := by
  intro v
  obtain ⟨report, v', hverify, -, -, hmatched⟩ := ((verify_exact 1 [.setPeriod [5, 5],
    .verify [5, 5] 1 1, .setPeriod [-32768, 32767, 0], .verify [0, 0, 0, 0] 2 5]).2.2
    [-32768, 0, -32767, 32767, 3, 3] 3 4 (by decide) (by decide) (by decide) (by decide)
    (by decide)).1 (by decide)
  exact ⟨report, v', hverify, hmatched.trans (by decide)⟩

/-- One bucket of as many samples as an index can count: the window that is one longer is no index,
and the call aborts. -/
theorem verify_overflows :
    let v := (Verifier.withTolerance 0).run [.setPeriod [3]]
    let raw := indexLimit - 1
    v.isReady = true ∧ 1 ≤ raw ∧ raw < indexLimit ∧ max 1 (raw / 1) = raw ∧
      v.verify [3, 3] 1 raw = none := by
  intro v raw
  have hasks : v.Asks [3, 3] 1 raw := ⟨by decide, by decide, by decide, by decide⟩
  exact ⟨by decide, by decide, by decide, by decide,
    Verifier.verify_of_long hasks (by decide) (by decide)⟩

end Envelope
end Oscilloscope
