import Oscilloscope.Decimation
import Oscilloscope.Proofs.Decimation.Buckets

/-!
# Oscilloscope.Proofs.Decimation.Enclosing

A reduction to bucket extremes skips no spike.

* `Encloses ys xs`: the samples `ys` are among `xs`, and every one of `xs` lies between two of them.
  Reductions of reductions enclose again.
* `encloses_flatMap`: the extremes of some parts, for all of the parts together.
* `minMax_encloses`: for every number of buckets, and for samples that are kept as they are.
* `Extremal`: the settings under which a reduction keeps the extremes (`decimate_encloses`).
-/

namespace Oscilloscope
namespace Decimation

structure Encloses (ys xs : List Sample) : Prop where
  subset : ∀ y ∈ ys, y ∈ xs
  below : ∀ x ∈ xs, ∃ y ∈ ys, y ≤ x
  above : ∀ x ∈ xs, ∃ y ∈ ys, x ≤ y

namespace Encloses

variable {xs ys zs : List Sample}

theorem refl (xs : List Sample) : Encloses xs xs where
  subset := fun _ hx => hx
  below := fun x hx => ⟨x, hx, Int16.le_refl x⟩
  above := fun x hx => ⟨x, hx, Int16.le_refl x⟩

theorem trans (h : Encloses zs ys) (h' : Encloses ys xs) : Encloses zs xs where
  subset := fun z hz => h'.subset z (h.subset z hz)
  below := by
    intro x hx
    obtain ⟨y, hy, hyx⟩ := h'.below x hx
    obtain ⟨z, hz, hzy⟩ := h.below y hy
    exact ⟨z, hz, Int16.le_trans hzy hyx⟩
  above := by
    intro x hx
    obtain ⟨y, hy, hxy⟩ := h'.above x hx
    obtain ⟨z, hz, hyz⟩ := h.above y hy
    exact ⟨z, hz, Int16.le_trans hxy hyz⟩

/-- What lies between two of `xs` lies between the smallest and the largest of `ys`. -/
theorem between (h : Encloses ys xs) {lo hi : Sample} (hspans : Spans ys lo hi) {x : Sample}
    (hx : x ∈ xs) : lo ≤ x ∧ x ≤ hi := by
  obtain ⟨y, hy, hle⟩ := h.below x hx
  obtain ⟨z, hz, hge⟩ := h.above x hx
  exact ⟨Int16.le_trans (hspans.low_le y hy) hle, Int16.le_trans hge (hspans.le_high z hz)⟩

theorem spans (h : Encloses ys xs) {lo hi : Sample} (hspans : Spans ys lo hi) :
    Spans xs lo hi where
  low_mem := h.subset lo hspans.low_mem
  high_mem := h.subset hi hspans.high_mem
  low_le := fun _ hx => (h.between hspans hx).1
  le_high := fun _ hx => (h.between hspans hx).2

end Encloses

/-- The extremes of some parts enclose all of the parts. -/
theorem encloses_flatMap {β : Type} {bs : List β} {part : β → List Sample}
    (hne : ∀ b ∈ bs, part b ≠ []) :
    Encloses (bs.flatMap fun b => [(extremes (part b)).1, (extremes (part b)).2])
      (bs.flatMap part) := by
  have hspans (b : β) (hb : b ∈ bs) : Spans (part b) (extremes (part b)).1 (extremes (part b)).2 :=
    spans_extremes (hne b hb)
  -- Every sample lies between the two samples that stand for its part.
  constructor
  · intro y hy
    obtain ⟨b, hb, hy⟩ := List.mem_flatMap.mp hy
    refine List.mem_flatMap.mpr ⟨b, hb, ?_⟩
    rcases List.mem_cons.mp hy with rfl | hy
    · exact (hspans b hb).low_mem
    · rw [List.mem_singleton.mp hy]
      exact (hspans b hb).high_mem
  · intro x hx
    obtain ⟨b, hb, hx⟩ := List.mem_flatMap.mp hx
    exact ⟨_, List.mem_flatMap.mpr ⟨b, hb, List.mem_cons_self⟩, (hspans b hb).low_le x hx⟩
  · intro x hx
    obtain ⟨b, hb, hx⟩ := List.mem_flatMap.mp hx
    exact ⟨_, List.mem_flatMap.mpr ⟨b, hb, List.mem_cons_of_mem _ List.mem_cons_self⟩,
      (hspans b hb).le_high x hx⟩

theorem minMax_encloses {samples : List Sample} {buckets : Nat} (hpos : 0 < buckets)
    (hn : samples.length < indexLimit) : Encloses (minMax samples buckets) samples := by
  by_cases hle : buckets ≤ samples.length
  · have henclosed : Encloses (minMax samples buckets)
        ((List.range buckets).flatMap (bucketOf samples buckets)) := by
      rw [minMax_eq hpos hle]
      apply encloses_flatMap
      intro bucket hbucket
      exact bucketOf_ne_nil (List.mem_range.mp hbucket) hle hn
    rwa [flatMap_buckets hpos hn] at henclosed
  · rw [minMax, if_neg (by omega), if_pos (by omega)]
    exact .refl samples

/-! ## Settings -/

/-- The settings that keep the extremes of a signal. -/
def Extremal (mode : Mode) (target : Nat) : Prop :=
  mode = .passthrough ∨ mode = .minMax ∧ 0 < target

variable {mode : Mode} {target : Nat}

theorem Extremal.effective (h : Extremal mode target) (rate : Float) :
    mode.effective rate = mode := by
  rcases h with rfl | ⟨rfl, -⟩
  · rfl
  · rfl

theorem decimate_encloses (h : Extremal mode target) {samples : List Sample}
    (hn : samples.length < indexLimit) : Encloses (decimate samples mode target) samples := by
  rcases h with rfl | ⟨rfl, hpos⟩
  · exact .refl samples
  · exact minMax_encloses hpos hn

end Decimation
end Oscilloscope
