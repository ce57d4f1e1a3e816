import Oscilloscope.Proofs.Display.Spikes

/-!
# Oscilloscope.Proofs.Display.Budget

What is shown fits the budget.

* `Session.fits_shown`: the windows of all channels come out equally long, so that they have the
  shape of a frame.
* `Session.reduce_window`: what is shown of a window, and that it spans what the window spans.
* `Session.run_within_budget`: both for the frames of any run.
-/

namespace Oscilloscope

namespace Display

namespace Session

open Decimation

variable {total : Nat} {s : Session}

theorem length_windows (s : Session) : s.windows.length = s.display.history.length := by
  rw [windows, List.length_map]

/-- What is shown is never refused as a frame, unless it is longer than a frame can say. -/
theorem Sound.fits_shown (h : s.Sound total) (hready : s.Ready) (hword : s.each < UInt32.size) :
    (∀ part ∈ s.shown, part.length = (s.shown.headD []).length) ∧
      ∃ g, Frame.ofSamples? (UInt32.ofNat s.shown.length)
        (UInt32.ofNat (s.shown.headD []).length) s.shown.flatten = .ok g := by
  have hall : ∀ part ∈ s.shown, part.length = s.each := fun _ => length_of_mem_shown
  have hcount := UInt32.toNat_ofNat_of_lt' h.length_shown_lt
  obtain ⟨g, hg, -⟩ := Frame.ofSamples?_flatten hcount.symm hall hword
  rw [length_headD (h.shown_ne_nil hready) hall]
  exact ⟨hall, g, hg⟩

theorem Sound.each_lt (h : s.Sound total) (hready : s.Ready) {limit : Nat}
    (hsmall : ∀ history ∈ s.display.history, history.length < limit) : s.each < limit := by
  obtain ⟨history, hmem⟩ := List.exists_mem_of_ne_nil _ (h.history_ne_nil hready)
  calc s.each ≤ s.depth := s.each_le_depth
    _ ≤ shortest s.display.history := Nat.min_le_right _ _
    _ ≤ history.length := shortest_le hmem
    _ < limit := hsmall history hmem

/-- A window is shown as it is or as the extremes of its buckets. Either way nothing in it lies
beyond what is shown. -/
theorem reduce_window (hpos : 0 < s.depth) {window : List Sample} (hwindow : window ∈ s.windows) :
    let part := reduce s.budget window
    part.length = s.each ∧ (window.length ≤ s.budget → part = window) ∧
      (s.budget < window.length → part = minMax window (s.budget / 2)) ∧
      ∃ lo hi, Spans window lo hi ∧ Spans part lo hi := by
  intro part
  have hlength : part.length = s.each := length_of_mem_shown (List.mem_map_of_mem hwindow)
  have hsome : part ≠ [] := by
    rw [← List.length_pos_iff, hlength]
    exact each_pos hpos
  have hn : window.length < indexLimit := by
    rw [length_of_mem_windows hwindow]
    exact s.depth_lt
  have hspans := spans_extremes hsome
  have hencloses : Encloses part window := encloses_reduce s.two_le_budget hn
  exact ⟨hlength, fun hle => if_neg (Nat.not_lt.mpr hle), fun hlt => if_pos hlt,
    _, _, hencloses.spans hspans, hspans⟩

/-- **Frames within the budget.** After any calls with frames and any changes of the settings, and
with fewer than 2^31 samples in each history: what a call chooses to show has the shape of a frame
and is made into one. The frame has at least one sample per channel and at most as many as the
budget, which is never less than a pair. Each of its channels is as long, and is the newest window
of that channel, or the extremes of half as many buckets as the budget if the window is longer than
that; it has the smallest and the largest sample of the window. All other metadata are those of the
frame that completed the window. -/
theorem run_within_budget (points : Nat) (span : Float) (events : List Event) (f : Frame)
    (left : List Frame) :
    let s := (start points span).run events
    let s' := s.step (.process (f :: left))
    let made := (s.display.process (f :: left)).made
    let budget := max s'.display.points 2
    (∀ history ∈ s'.display.history, history.length < 2147483648) →
    (∀ shown, (s.display.accumulate f).render.1 = some shown →
      (∀ part ∈ shown, part.length = (shown.headD []).length) ∧
      (∃ g, Frame.ofSamples? (UInt32.ofNat shown.length) (UInt32.ofNat (shown.headD []).length)
        shown.flatten = .ok g) ∧ made ≠ []) ∧
    ∀ g ∈ made,
      (1 ≤ g.samplesPerChannel.toNat ∧ g.samplesPerChannel.toNat ≤ budget) ∧
      s'.windows = s'.past.tails.map (newest (min s'.display.window (shortest s'.display.history))) ∧
      g.channels.toNat = s'.windows.length ∧
      (∀ channel window, s'.windows[channel]? = some window →
        ∃ part, g.channel? channel = some part ∧ part.length = g.samplesPerChannel.toNat ∧
          (window.length ≤ budget → part = window) ∧
          (budget < window.length → part = minMax window (budget / 2)) ∧
          ∃ lo hi, Spans window lo hi ∧ Spans part lo hi) ∧
      g.sequence = f.sequence ∧ g.timestamp = f.timestamp ∧ g.flags = f.flags ∧
      g.firstIndex = f.firstIndex := by
  intro s s' made budget hsmall
  have hs : s.Sound (0 + (events.map Event.offered).sum) := run_sound (start_sound points span) _
  have hs' : s'.Sound _ := step_sound hs (.process (f :: left))
  have hword (hready : s'.Ready) : s'.each < UInt32.size :=
    Nat.lt_trans (hs'.each_lt hready hsmall) (by decide)
  constructor
  · intro shown hshown
    have hready : s'.Ready := by
      by_contra hnot
      rw [hs.render_of_not_ready f left hnot] at hshown
      cases hshown
    rw [(hs.render_of_ready f left hready).1, Option.some.injEq] at hshown
    subst hshown
    obtain ⟨huniform, hfits⟩ := hs'.fits_shown hready (hword hready)
    refine ⟨huniform, hfits, ?_⟩
    rcases hs.process_made f left with ⟨-, hnot⟩ | ⟨-, -, hwide⟩ | ⟨g, hg, -⟩
    · exact absurd hready hnot
    · exact absurd (hword hready) (Nat.not_lt.mpr hwide)
    · exact ne_of_eq_of_ne hg (List.cons_ne_nil g [])
  · intro g hmem
    obtain ⟨-, hready, hemits⟩ := hs.emits_of_mem f left hmem
    have hpos := hs'.depth_pos hready
    have hdepth : s'.depth = min s'.display.window (shortest s'.display.history) := by
      rw [(hs.render_of_ready f left hready).2, depth]
    rw [hemits.length, ← hdepth]
    refine ⟨⟨each_pos hpos, s'.each_le_budget⟩, hs'.windows_eq,
      hemits.channels.trans s'.length_windows.symm, ?_, hemits.stamped.sequence,
      hemits.stamped.timestamp, hemits.stamped.flags, hemits.stamped.firstIndex⟩
    intro channel window hwindow
    refine ⟨reduce s'.budget window, ?_, reduce_window hpos (List.mem_of_getElem? hwindow)⟩
    rw [hemits.channel, shown, List.getElem?_map, hwindow, Option.map_some]

/-- Two channels of different histories, a window of six samples, and a budget of five. -/
theorem run_within_budget_odd :
    let rate : Double := ⟨0x4030000000000000⟩
    let one : Frame := { channels := 1, samplesPerChannel := 3, rate
                         storage := .owned [1, 2, 3], fits := rfl }
    let two : Frame := { sequence := 7, channels := 2, samplesPerChannel := 7, rate
                         storage := .owned [4, 9, 5, 8, 6, 7, 3, 14, 19, 15, 18, 16, 17, 13]
                         fits := rfl }
    let events : List Event := [.process [one], .setPoints 0, .setSpan 0.375, .setPoints 5]
    ∃ g ∈ (((start 3840 0.25).run events).display.process [two]).made,
      g.samplesPerChannel.toNat ≤ 5 ∧ g.sequence = 7 ∧ g.channel? 0 = some [5, 9, 3, 7] ∧
        g.channel? 1 = some [15, 19, 13, 17] := by
  intro rate one two events
  obtain ⟨hshown, hframes⟩ := run_within_budget 3840 0.25 events two [] (by decide +kernel)
  obtain ⟨g, hg⟩ := List.exists_mem_of_ne_nil _
    (hshown [[5, 9, 3, 7], [15, 19, 13, 17]] (by decide +kernel)).2.2
  obtain ⟨⟨-, hbudget⟩, -, -, hchannels, hsequence, -⟩ := hframes g hg
  have hwindows : (((start 3840 0.25).run events).step (.process [two])).windows =
      [[9, 5, 8, 6, 7, 3], [19, 15, 18, 16, 17, 13]] := by decide +kernel
  rw [hwindows] at hchannels
  obtain ⟨first, hfirst, -, -, hreduced, -⟩ := hchannels 0 _ rfl
  obtain ⟨second, hsecond, -, -, hreduced', -⟩ := hchannels 1 _ rfl
  exact ⟨g, hg, Nat.le_trans hbudget (by decide +kernel), hsequence,
    hfirst.trans (congrArg some ((hreduced (by decide +kernel)).trans (by decide +kernel))),
    hsecond.trans (congrArg some ((hreduced' (by decide +kernel)).trans (by decide +kernel)))⟩

end Session

end Display

end Oscilloscope
