import Oscilloscope.Proofs.Display.Window

/-!
# Oscilloscope.Proofs.Display.Overlong

Windows that are longer than a frame can say.

A frame counts its samples per channel in a word of 32 bits, and a budget has no such bound. So a
call can find a window, look at it, and make no frame.

* `Session.Overlong`: an event is such a call.
* `Session.Sound.process_of_overlong`: it makes no frame; and no other call that finds a window
  fails to, by `Session.Sound.process_made`.
* `Session.Sound.wide_of_tails`: it is enough that the signals and the settings are long.
* `Session.overlong_second`: two frames are enough, if no single one.
-/

namespace Oscilloscope

namespace Display

/-- A frame of one channel with samples, at `rate`. -/
structure OneAt (rate : Double) (f : Frame) : Prop where
  channels : f.channels = 1
  samples : f.samplesPerChannel ≠ 0
  rate : f.rate = rate

theorem OneAt.length_samplesOf {rate : Double} {f : Frame} (hone : OneAt rate f) :
    (f.samplesOf 0).length = f.samplesPerChannel.toNat :=
  f.length_samplesOf (by rw [hone.channels]; decide)

/-- A look after such a frame, when no other rate has been there before. -/
theorem Past.look_append_of_one {p : Past} {rate : Double} {f : Frame} (hone : OneAt rate f)
    (hrate : rate.isPositive = true) (hsame : rate.agrees p.rate = true ∨ p.rate = .zero)
    {span : Float} (hwindow : 0 < windowLength rate.toFloat span) :
    (p.append f).look span =
      { rate, tails := [(p.tails[0]?).getD [] ++ f.samplesOf 0]
        windows := windowLength rate.toFloat span :: p.windows } := by
  have hvoid : isVoid f = false := by
    simp [isVoid, hone.channels, hone.samples]
  have hchanges : p.changes f = false := by
    rw [changes, hone.rate]
    rcases hsame with hagrees | hzero
    · simp [hagrees]
    · have hunknown : Double.zero.isPositive = false := by decide +kernel
      simp [hzero, hunknown]
  have happend : p.append f =
      { rate, tails := [(p.tails[0]?).getD [] ++ f.samplesOf 0], windows := p.windows } := by
    rw [append, if_neg (ne_true_of_eq_false hvoid), hone.channels, hone.rate, hchanges,
      if_pos hrate]
    rfl
  rw [happend]
  exact if_pos ⟨hrate, List.cons_ne_nil _ _, hwindow⟩

namespace Session

/-- A call that finds a window which is longer than a frame can say. -/
structure Overlong (s : Session) (e : Event) : Prop where
  call : ∃ f left, e = .process (f :: left)
  ready : (s.step e).Ready
  wide : UInt32.size ≤ (s.step e).each

section Overlong

variable {total : Nat} {s : Session} {f : Frame} {left : List Frame}

theorem Sound.process_of_overlong (h : s.Sound total)
    (hlong : s.Overlong (.process (f :: left))) : (s.display.process (f :: left)).made = [] := by
  rcases h.process_made f left with ⟨hnone, -⟩ | ⟨hnone, -⟩ | ⟨g, -, -, hword, -⟩
  · exact hnone
  · exact hnone
  · exact absurd hword (Nat.not_lt.mpr hlong.wide)

theorem le_each {n : Nat} (heven : n % 2 = 0) (hbudget : n ≤ s.budget) (hdepth : n ≤ s.depth) :
    n ≤ s.each := by
  rw [each]
  split
  · omega
  · exact hdepth

/-- Signals and settings for which there is more to show than a frame can say. -/
theorem Sound.wide_of_tails (h : s.Sound total) (hrate : s.past.rate.isPositive = true)
    (hle : ∀ w ∈ s.past.windows, s.window ≤ 2 * w) (hbudget : UInt32.size ≤ s.budget)
    (hwindow : UInt32.size ≤ s.window) (htails : UInt32.size ≤ shortest s.past.tails) :
    s.Ready ∧ UInt32.size ≤ s.each := by
  have hsize : 0 < UInt32.size := by decide
  have hdepth : UInt32.size ≤ s.depth := by
    rw [h.depth_eq hle]
    exact Nat.le_min.mpr ⟨hwindow, htails⟩
  have hhistory : 0 < shortest s.display.history :=
    Nat.lt_of_lt_of_le hsize (Nat.le_trans hdepth (Nat.min_le_right _ _))
  have hsignals := shortest_pos.mp (Nat.lt_of_lt_of_le hsize htails)
  exact ⟨⟨hrate, Nat.lt_of_lt_of_le hsize hwindow, hsignals.1, (shortest_pos.mp hhistory).2⟩,
    le_each (by decide) hbudget hdepth⟩

end Overlong

/-- A call leaves the settings. -/
theorem settings_process (s : Session) (f : Frame) (left : List Frame) :
    (s.step (.process (f :: left))).display.span = s.display.span ∧
      (s.step (.process (f :: left))).display.points = s.display.points := by
  have hlook := (s.display.accumulate f).render_unmoved
  rw [step_process]
  exact ⟨hlook.span.trans accumulate_span, hlook.points.trans accumulate_points⟩

/-- The second of two frames that are together longer than a frame can say, when the span and the
budget hold both. -/
theorem overlong_second {s : Session} {total : Nat} (h : s.Sound total) (hfresh : s.past = {})
    {rate : Double} {f g : Frame} (hf : OneAt rate f) (hg : OneAt rate g)
    (hrate : rate.isPositive = true) (hagrees : rate.agrees rate = true)
    (hlong : UInt32.size ≤ f.samplesPerChannel.toNat + g.samplesPerChannel.toNat)
    (hwindow : UInt32.size ≤ windowLength rate.toFloat s.display.span)
    (hpoints : UInt32.size ≤ s.display.points) (directory : String) :
    (s.run [.process [f], .requestDump directory]).Overlong (.process [g]) := by
  let waiting := s.run [.process [f], .requestDump directory]
  have hspan : waiting.display.span = s.display.span := (settings_process s f []).1
  have hbudget : waiting.display.points = s.display.points := (settings_process s f []).2
  have hpos : 0 < windowLength rate.toFloat s.display.span :=
    Nat.lt_of_lt_of_le (by decide) hwindow
  have hfirst : waiting.past = { rate, tails := [f.samplesOf 0]
                                 windows := [windowLength rate.toFloat s.display.span] } := by
    show (s.past.append f).look s.display.span = _
    rw [hfresh]
    exact Past.look_append_of_one hf hrate (.inr rfl) hpos
  have hsecond : (waiting.step (.process [g])).past =
      { rate, tails := [f.samplesOf 0 ++ g.samplesOf 0]
        windows := [windowLength rate.toFloat s.display.span,
          windowLength rate.toFloat s.display.span] } := by
    show (waiting.past.append g).look waiting.display.span = _
    have hsame : rate.agrees waiting.past.rate = true := by
      rw [hfirst]
      exact hagrees
    rw [hspan, Past.look_append_of_one hg hrate (.inl hsame) hpos, hfirst]
    rfl
  have hlast : (waiting.step (.process [g])).window =
      windowLength rate.toFloat s.display.span := by
    rw [window, hsecond, (settings_process waiting g []).1, hspan]
  have hsound : (waiting.step (.process [g])).Sound _ := step_sound (run_sound h _) _
  obtain ⟨hready, hwide⟩ : (waiting.step (.process [g])).Ready ∧
      UInt32.size ≤ (waiting.step (.process [g])).each := by
    apply hsound.wide_of_tails
    · rw [hsecond]
      exact hrate
    -- Both windows are of the same length, so what has been trimmed is not missed.
    · rw [hsecond, hlast]
      intro w hw
      simp only [List.mem_cons, List.not_mem_nil, or_false, or_self] at hw
      omega
    · rw [budget, (settings_process waiting g []).2, hbudget]
      exact Nat.le_trans hpoints (Nat.le_max_left _ _)
    · rw [hlast]
      exact hwindow
    · rw [hsecond, shortest_eq, List.map_singleton, List.length_append, hf.length_samplesOf,
        hg.length_samplesOf]
      exact hlong
  exact ⟨⟨g, [], rfl⟩, hready, hwide⟩

end Session

end Display

end Oscilloscope
