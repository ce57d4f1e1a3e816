import Oscilloscope.Proofs.Display.Window

/-!
# Oscilloscope.Proofs.Display.Bounds

How much a display remembers.

* `reach`: the window length for the rate and the span.
* `extended`: the histories with a frame appended and nothing forgotten.
* `process_history`: a call trims what it has appended to twice the window, if there is one, and
  else forgets nothing.
* `Session.run_length_le`: between two such windows the histories grow with what they are given.
* `Session.run_bounds`: the three for the calls of any run.
-/

namespace Oscilloscope

namespace Display

/-- The window length for the rate and the span, `0` before a rate is known. -/
def reach (d : Display) : Nat :=
  if d.rate.isPositive then windowLength d.rate.toFloat d.span else 0

/-- The histories with the channels of `f` behind them. -/
def extended (d : Display) (f : Frame) : List (List Sample) :=
  if isVoid f then d.history
  else
    (List.range f.channels.toNat).map fun channel =>
      (if d.clears f then [] else (d.history[channel]?).getD []) ++ f.samplesOf channel

/-- The newest samples within twice the window. -/
def within (reach : Nat) (h : List Sample) : List Sample :=
  newest (min (2 * reach) (indexLimit - 1)) h

theorem length_within_le (reach : Nat) (h : List Sample) : (within reach h).length ≤ 2 * reach := by
  rw [within, length_newest]
  omega

theorem length_within_le_length (reach : Nat) (h : List Sample) :
    (within reach h).length ≤ h.length :=
  (newest_suffix _ h).length_le

section Call

variable {d : Display} {f : Frame} {limit : Nat}

theorem accumulate_extended (d : Display) (f : Frame) :
    (d.accumulate f).history = d.extended f := by
  cases hvoid : isVoid f with
  | true => rw [accumulate_of_void hvoid, extended, if_pos hvoid]
  | false => rw [accumulate_history hvoid, extended, hvoid, if_neg Bool.false_ne_true]

theorem reach_of_unmoved {d' : Display} (h : Unmoved d d') : d'.reach = d.reach := by
  rw [reach, reach, h.rate, h.span]

theorem reach_of_known (hrate : d.rate.isPositive = true) :
    d.reach = windowLength d.rate.toFloat d.span := if_pos hrate

theorem rate_of_reach (hreach : 0 < d.reach) : d.rate.isPositive = true := by
  by_contra hunknown
  rw [reach, if_neg hunknown] at hreach
  exact Nat.lt_irrefl 0 hreach

theorem render_history (d : Display) :
    d.render.2.history = if 0 < d.reach then d.history.map (within d.reach) else d.history := by
  by_cases hvisible : d.Visible
  · have hreach := reach_of_known hvisible.1
    rw [(render_of_visible hvisible).1, if_pos (hreach ▸ hvisible.2.2), hreach]
    rfl
  · rw [(render_of_not_visible hvisible).2.1]
    split
    · -- A window without a history.
      rename_i hpos
      have hrate := rate_of_reach hpos
      have hnone : d.history = [] := by
        by_contra hsome
        exact hvisible ⟨hrate, hsome, reach_of_known hrate ▸ hpos⟩
      rw [hnone, List.map_nil]
    · rfl

/-- After a call the histories are trimmed for the window that the call has looked at. Without a
window they are not trimmed. -/
theorem process_history (d : Display) (f : Frame) (left : List Frame) :
    let d' := (d.process (f :: left)).stage
    d'.history = if 0 < d'.reach then (d.extended f).map (within d'.reach) else d.extended f := by
  intro d'
  have hd' : d' = (d.accumulate f).render.2 := (process_cons d f left).1
  have hreach : d'.reach = (d.accumulate f).reach := by
    rw [hd']
    exact reach_of_unmoved (d.accumulate f).render_unmoved
  rw [hreach, hd', render_history, accumulate_extended]

/-- A frame makes a history longer by its samples per channel at most. -/
theorem length_extended_le (left : List Frame) (hle : ∀ h ∈ d.history, h.length ≤ limit) :
    ∀ h ∈ d.extended f, h.length ≤ limit + (Event.process (f :: left)).offered := by
  intro h hmem
  cases hvoid : isVoid f with
  | true =>
    rw [extended, if_pos hvoid] at hmem
    exact Nat.le_trans (hle h hmem) (Nat.le_add_right _ _)
  | false =>
    rw [extended, hvoid, if_neg Bool.false_ne_true] at hmem
    obtain ⟨channel, hchannel, rfl⟩ := List.mem_map.mp hmem
    have hold : (if d.clears f then [] else (d.history[channel]?).getD []).length ≤ limit := by
      split
      · exact Nat.zero_le _
      · cases hget : d.history[channel]? with
        | none => exact Nat.zero_le _
        | some h => exact hle h (List.mem_of_getElem? hget)
    rw [List.length_append, f.length_samplesOf (List.mem_range.mp hchannel), Event.offered,
      if_neg (channels_ne_zero hvoid)]
    exact Nat.add_le_add_right hold _

end Call

namespace Session

variable {s : Session} {limit : Nat}

theorem step_length_le (hle : ∀ h ∈ s.display.history, h.length ≤ limit) (e : Event) :
    ∀ h ∈ (s.step e).display.history, h.length ≤ limit + e.offered := by
  cases e with
  | process batch =>
    cases batch with
    | nil => exact hle
    | cons f left =>
      have hextended := length_extended_le (f := f) left hle
      intro h hmem
      have hhistory := process_history s.display f left
      dsimp only at hhistory
      have hmem' : h ∈ (s.display.process (f :: left)).stage.history := hmem
      rw [hhistory] at hmem'
      split at hmem'
      · obtain ⟨h', hh', rfl⟩ := List.mem_map.mp hmem'
        exact Nat.le_trans (length_within_le_length _ h') (hextended h' hh')
      · exact hextended h hmem'
  | setSpan span => exact hle
  | setPoints points => exact hle
  | requestDump directory => exact hle

theorem run_length_le (hle : ∀ h ∈ s.display.history, h.length ≤ limit) (events : List Event) :
    ∀ h ∈ (s.run events).display.history, h.length ≤ limit + (events.map Event.offered).sum := by
  induction events generalizing s limit with
  | nil => exact hle
  | cons e events ih =>
    rw [List.map_cons, List.sum_cons, ← Nat.add_assoc]
    exact ih (step_length_le hle e)

/-- **A call with a window bounds the histories.** After a call the histories hold at most twice as
many samples as the window exactly if the call finds a window or leaves nothing at all. From a call
with a window on they grow with what they are given, until the next such call. A call without a
window, for want of a rate or of a span, appends its frame and forgets nothing. -/
theorem run_bounds (points : Nat) (span : Float) (events : List Event) (f : Frame)
    (left : List Frame) :
    let s := (start points span).run events
    let s' := s.step (.process (f :: left))
    let w := s'.display.reach
    (s'.display.history =
      if 0 < w then (s.display.extended f).map (within w) else s.display.extended f) ∧
    ((∀ h ∈ s'.display.history, h.length ≤ 2 * w) ↔
      0 < w ∨ ∀ h ∈ s.display.extended f, h = []) ∧
    (0 < w → ∀ later : List Event, ∀ h ∈ (s'.run later).display.history,
      h.length ≤ 2 * w + (later.map Event.offered).sum) := by
  intro s s' w
  have hhistory : s'.display.history =
      if 0 < w then (s.display.extended f).map (within w) else s.display.extended f :=
    process_history s.display f left
  have hbound : 0 < w → ∀ h ∈ s'.display.history, h.length ≤ 2 * w := by
    intro hpos h hmem
    rw [hhistory, if_pos hpos] at hmem
    obtain ⟨h', -, rfl⟩ := List.mem_map.mp hmem
    exact length_within_le w h'
  refine ⟨hhistory, ?_, fun hpos later => run_length_le (hbound hpos) later⟩
  by_cases hpos : 0 < w
  · exact ⟨fun _ => .inl hpos, fun _ => hbound hpos⟩
  · have hzero : 2 * w = 0 := by omega
    rw [hhistory, if_neg hpos, hzero, or_iff_right hpos]
    simp only [Nat.le_zero, List.length_eq_zero_iff]

/-- Twelve samples within a window of five, one more frame within a window of one, and two frames
without a window. -/
theorem run_bounds_shrunk :
    let f : Frame := { channels := 1, samplesPerChannel := 4, rate := ⟨0x408f400000000000⟩
                       storage := .owned [1, 2, 3, 4], fits := rfl }
    let s := (start 100 0.005).run [.process [f], .process [f], .process [f], .setSpan 0.001]
    let s' := s.step (.process [f])
    let later : List Event := [.setSpan 0.0, .process [f], .process [f]]
    s.display.history.map List.length = [10] ∧ 0 < s'.display.reach ∧
      (∀ h ∈ s'.display.history, h.length ≤ 2) ∧
      (∀ h ∈ (s'.run later).display.history, h.length ≤ 10) ∧
      (s'.run later).display.history = [[3, 4, 1, 2, 3, 4, 1, 2, 3, 4]] := by
  intro f s s' later
  have hreach : s'.display.reach = 1 := by decide +kernel
  have hpos : 0 < s'.display.reach := by
    rw [hreach]
    exact Nat.one_pos
  obtain ⟨-, hbound, hlater⟩ := run_bounds 100 0.005
    [.process [f], .process [f], .process [f], .setSpan 0.001] f []
  have hnow := hbound.mpr (.inl hpos)
  have hthen := hlater hpos later
  rw [hreach] at hnow
  rw [hreach] at hthen
  exact ⟨by decide +kernel, hpos, hnow, hthen, by decide +kernel⟩

/-- Without a visible span and without a rate the histories only grow. -/
theorem run_hoards :
    let f (rate : Double) : Frame := { channels := 1, samplesPerChannel := 4, rate
                                       storage := .owned [1, 2, 3, 4], fits := rfl }
    let spanless := (start 100 0.0).run (List.replicate 3 (.process [f ⟨0x408f400000000000⟩]))
    let rateless := (start 100 1.0).run (List.replicate 3 (.process [f .zero]))
    (spanless.display.history.map List.length = [12] ∧
      ¬∀ h ∈ spanless.display.history, h.length ≤ 2 * spanless.display.reach) ∧
    rateless.display.history.map List.length = [12] ∧
      ¬∀ h ∈ rateless.display.history, h.length ≤ 2 * rateless.display.reach := by
  decide +kernel

end Session

end Display

end Oscilloscope
