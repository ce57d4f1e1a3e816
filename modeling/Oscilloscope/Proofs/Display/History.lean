import Mathlib.Algebra.GroupWithZero.Nat
import Mathlib.Data.List.Induction
import Oscilloscope.Proofs.Frame.Channels
import Oscilloscope.Proofs.Least
import Oscilloscope.Stage.Display

/-!
# Oscilloscope.Proofs.Display.History

What a display remembers of what it was given.

`Past` is the whole signal since the last change of the rate, channel by channel, with the lengths
of the windows that were looked at since then. `Session` runs a display beside its past.

* `Keeps`: a history is the end of the signal. Either it is all of it, or it is at least twice as
  long as some window since the last change.
* `accumulate_eq`: each channel of a frame goes behind its history, unless the rate changed.
* `render_of_visible`, `render_of_not_visible`: what a look at the window shows, and that it does
  nothing to the histories but trim them.
-/

namespace Oscilloscope

namespace Display

/-! ## The past -/

/-- A frame without a channel or without a sample. -/
def isVoid (f : Frame) : Bool := f.channels == 0 || f.samplesPerChannel == 0

theorem channels_ne_zero {f : Frame} (hvoid : isVoid f = false) : f.channels ≠ 0 := by
  intro hzero
  simp [isVoid, hzero] at hvoid

theorem channels_pos {f : Frame} (hvoid : isVoid f = false) : 0 < f.channels.toNat :=
  Nat.pos_of_ne_zero fun hzero => channels_ne_zero hvoid (UInt32.toNat_inj.mp hzero)

/-- What a display was given since the rate last changed. -/
structure Past where
  rate : Double := .zero
  /-- The samples of each channel, from the change or from when the channel came up. -/
  tails : List (List Sample) := []
  /-- The lengths of the windows since the change, newest first, where there was one. -/
  windows : List Nat := []

namespace Past

/-- Whether a frame has another rate than the frames before it. -/
def changes (p : Past) (f : Frame) : Bool :=
  f.rate.isPositive && p.rate.isPositive && !f.rate.agrees p.rate

def append (p : Past) (f : Frame) : Past :=
  if isVoid f then p
  else
    { rate := if f.rate.isPositive then f.rate else p.rate
      tails := (List.range f.channels.toNat).map fun channel =>
        (if p.changes f then [] else (p.tails[channel]?).getD []) ++ f.samplesOf channel
      windows := if p.changes f then [] else p.windows }

/-- A window has been computed for a visible span. -/
def look (p : Past) (span : Float) : Past :=
  let w := windowLength p.rate.toFloat span
  if p.rate.isPositive ∧ p.tails ≠ [] ∧ 0 < w then { p with windows := w :: p.windows } else p

theorem look_rate (p : Past) (span : Float) : (p.look span).rate = p.rate := by
  simp only [look]
  split
  · rfl
  · rfl

theorem look_tails (p : Past) (span : Float) : (p.look span).tails = p.tails := by
  simp only [look]
  split
  · rfl
  · rfl

end Past

/-- What can happen to a display. -/
inductive Event where
  /-- A call with the frames of a batch; the first of them is taken. -/
  | process (batch : List Frame)
  | setSpan (span : Float)
  | setPoints (points : Nat)
  | requestDump (directory : String)

/-- How many samples per channel an event brings. -/
def Event.offered : Event → Nat
  | process (f :: _) => if f.channels = 0 then 0 else f.samplesPerChannel.toNat
  | _ => 0

structure Session where
  display : Display
  past : Past := {}

namespace Session

def step (s : Session) : Event → Session
  | .process [] => { s with display := (s.display.process []).stage }
  | .process (f :: left) =>
    { display := (s.display.process (f :: left)).stage
      past := (s.past.append f).look s.display.span }
  | .setSpan span => { s with display := s.display.setSpan span }
  | .setPoints points => { s with display := s.display.setPoints points }
  | .requestDump directory => { s with display := s.display.requestDump directory }

def run (s : Session) (events : List Event) : Session := events.foldl step s

end Session

/-! ## Newest samples -/

section Newest

variable {h tail : List Sample} {count limit : Nat}

theorem length_newest : (newest count h).length = min count h.length := by
  rw [newest, List.length_drop]
  omega

theorem newest_suffix (count : Nat) (h : List Sample) : newest count h <:+ h :=
  List.drop_suffix _ _

theorem newest_of_length_le (hle : h.length ≤ count) : newest count h = h := by
  rw [newest, Nat.sub_eq_zero_of_le hle, List.drop_zero]

/-- The newest samples of a signal stand at its end. -/
theorem newest_of_suffix (hsuffix : h <:+ tail) (hle : count ≤ h.length) :
    newest count h = newest count tail := by
  obtain ⟨before, rfl⟩ := hsuffix
  have hlen : (before ++ h).length - count = before.length + (h.length - count) := by
    rw [List.length_append]
    omega
  rw [newest, newest, hlen, List.drop_append, Nat.add_sub_cancel_left,
    List.drop_of_length_le (Nat.le_add_right _ _), List.nil_append]

theorem mem_newest_append {old new : List Sample} (hle : new.length ≤ count) {s : Sample}
    (hs : s ∈ new) : s ∈ newest count (old ++ new) := by
  have hold : (old ++ new).length - count ≤ old.length := by
    rw [List.length_append]
    omega
  rw [newest, List.drop_append_of_le_length hold]
  exact List.mem_append_right _ hs

end Newest

/-- `h` is the end of the signal `tail`: all of it, or at least what twice one of the windows
needs. -/
structure Keeps (windows : List Nat) (tail h : List Sample) : Prop where
  suffix : h <:+ tail
  kept : h = tail ∨ ∃ w ∈ windows, min (2 * w) (indexLimit - 1) ≤ h.length

namespace Keeps

variable {windows : List Nat} {tail h : List Sample}

theorem nil : Keeps windows [] [] := ⟨List.suffix_refl _, .inl rfl⟩

theorem append (hk : Keeps windows tail h) (samples : List Sample) :
    Keeps windows (tail ++ samples) (h ++ samples) := by
  constructor
  · obtain ⟨before, rfl⟩ := hk.suffix
    exact ⟨before, (List.append_assoc _ _ _).symm⟩
  · rcases hk.kept with rfl | ⟨w, hw, hle⟩
    · exact .inl rfl
    · refine .inr ⟨w, hw, ?_⟩
      rw [List.length_append]
      omega

theorem trim (hk : Keeps windows tail h) (w : Nat) :
    Keeps (w :: windows) tail (newest (min (2 * w) (indexLimit - 1)) h) := by
  refine ⟨(newest_suffix _ _).trans hk.suffix, ?_⟩
  by_cases hle : h.length ≤ min (2 * w) (indexLimit - 1)
  · -- Nothing is cut off, so an older window may still be the one that counts.
    rw [newest_of_length_le hle]
    rcases hk.kept with rfl | ⟨w', hw, hlen⟩
    · exact .inl rfl
    · exact .inr ⟨w', List.mem_cons_of_mem _ hw, hlen⟩
  · refine .inr ⟨w, List.mem_cons_self, ?_⟩
    rw [length_newest]
    omega

/-- A window within twice all windows so far finds its samples. -/
theorem min_length (hk : Keeps windows tail h) {w : Nat} (hword : w < indexLimit)
    (hle : ∀ w' ∈ windows, w ≤ 2 * w') : min w h.length = min w tail.length := by
  rcases hk.kept with rfl | ⟨w', hw, hlen⟩
  · rfl
  · have := hle w' hw
    have := hk.suffix.length_le
    omega

end Keeps

/-! ## Frames -/

section Accumulate

variable {d : Display} {f : Frame}

theorem accumulate_of_void (hvoid : isVoid f = true) : d.accumulate f = d := by
  have hempty : f.channels = 0 ∨ f.samplesPerChannel = 0 := by
    simpa [isVoid] using hvoid
  rw [accumulate, if_pos hempty]

/-- Whether the histories are cleared for a frame. -/
def clears (d : Display) (f : Frame) : Bool :=
  f.rate.isPositive && d.rate.isPositive && !f.rate.agrees d.rate

theorem adoptRate_of_clears (h : d.clears f = true) :
    d.adoptRate f.rate = { d.clearHistory with rate := f.rate } := by
  simp only [clears, Bool.and_eq_true] at h
  obtain ⟨⟨hrate, hknown⟩, hother⟩ := h
  simp [adoptRate, hrate, hknown, hother]

theorem adoptRate_of_not_clears (h : d.clears f = false) :
    d.adoptRate f.rate = { d with rate := if f.rate.isPositive then f.rate else d.rate } := by
  rw [adoptRate]
  cases hrate : f.rate.isPositive with
  | false => rfl
  | true =>
    have hsame : ¬(d.rate.isPositive = true ∧ (!f.rate.agrees d.rate) = true) := by
      rintro ⟨hknown, hother⟩
      simp [clears, hrate, hknown, hother] at h
    simp only [if_pos, if_neg hsame]

theorem getElem?_resize (history : List (List Sample)) (channels i : Nat) :
    (resize history channels)[i]? =
      if i < channels then some ((history[i]?).getD []) else none := by
  rw [resize, List.getElem?_append, List.length_take, List.getElem?_replicate]
  by_cases hi : i < channels
  · by_cases hold : i < history.length
    · rw [if_pos (by omega), if_pos hi, List.getElem?_take, if_pos hi,
        List.getElem?_eq_getElem hold, Option.getD_some]
    · rw [if_neg (by omega), if_pos (by omega), if_pos hi,
        List.getElem?_eq_none (Nat.le_of_not_lt hold), Option.getD_none]
  · rw [if_neg hi]
    split
    · rw [List.getElem?_take, if_neg hi]
    · rw [if_neg (by omega)]

theorem appendChannels_resize (f : Frame) (history : List (List Sample)) :
    appendChannels f (resize history f.channels.toNat) =
      (List.range f.channels.toNat).map fun channel =>
        (history[channel]?).getD [] ++ f.samplesOf channel := by
  apply List.ext_getElem?
  intro i
  rw [appendChannels, List.getElem?_mapIdx, getElem?_resize, List.getElem?_map]
  by_cases hi : i < f.channels.toNat
  · rw [if_pos hi, List.getElem?_range hi]
    rfl
  · rw [if_neg hi, List.getElem?_eq_none (by rw [List.length_range]; omega)]
    rfl

/-- Each channel of a frame goes behind what is left of its history, and the frame ends there. -/
theorem accumulate_eq (hvoid : isVoid f = false) :
    d.accumulate f = { d with
      rate := if f.rate.isPositive then f.rate else d.rate
      history := (List.range f.channels.toNat).map fun channel =>
        (if d.clears f then [] else (d.history[channel]?).getD []) ++ f.samplesOf channel
      appended := (if d.clears f then 0 else d.appended) + f.samplesPerChannel.toNat
      frameEnds := (if d.clears f then [] else d.frameEnds) ++
        [(if d.clears f then 0 else d.appended) + f.samplesPerChannel.toNat] } := by
  have hfull : ¬(f.channels = 0 ∨ f.samplesPerChannel = 0) := by
    simpa [isVoid] using hvoid
  rw [accumulate, if_neg hfull]
  cases hclears : d.clears f with
  | true =>
    have hrate : f.rate.isPositive = true := by
      simp only [clears, Bool.and_eq_true] at hclears
      exact hclears.1.1
    have hold (channel : Nat) : ((d.history.map fun _ => ([] : List Sample))[channel]?).getD [] =
        [] := by
      rw [List.getElem?_map]
      cases d.history[channel]? with
      | none => rfl
      | some h => rfl
    simp only [adoptRate_of_clears hclears, clearHistory, appendChannels_resize, hold, hrate,
      if_true]
  | false =>
    simp only [adoptRate_of_not_clears hclears, appendChannels_resize, Bool.false_eq_true,
      if_false]

theorem accumulate_history (hvoid : isVoid f = false) :
    (d.accumulate f).history = (List.range f.channels.toNat).map fun channel =>
      (if d.clears f then [] else (d.history[channel]?).getD []) ++ f.samplesOf channel := by
  rw [accumulate_eq hvoid]

theorem accumulate_rate (hvoid : isVoid f = false) :
    (d.accumulate f).rate = if f.rate.isPositive then f.rate else d.rate := by
  rw [accumulate_eq hvoid]

theorem accumulate_appended (hvoid : isVoid f = false) :
    (d.accumulate f).appended =
      (if d.clears f then 0 else d.appended) + f.samplesPerChannel.toNat := by
  rw [accumulate_eq hvoid]

@[simp] theorem accumulate_span : (d.accumulate f).span = d.span := by
  cases hvoid : isVoid f with
  | true => rw [accumulate_of_void hvoid]
  | false => rw [accumulate_eq hvoid]

@[simp] theorem accumulate_points : (d.accumulate f).points = d.points := by
  cases hvoid : isVoid f with
  | true => rw [accumulate_of_void hvoid]
  | false => rw [accumulate_eq hvoid]

end Accumulate

/-! ## Looks at the window -/

section Render

variable {d : Display}

/-- The settings, the rate and the count are as they were. -/
structure Unmoved (d d' : Display) : Prop where
  rate : d'.rate = d.rate
  span : d'.span = d.span
  points : d'.points = d.points
  appended : d'.appended = d.appended

/-- Showing a window changes nothing but what has to do with dumps. -/
theorem showWindow_keeps (d : Display) (count : Nat) :
    (d.showWindow count).1 = (d.history.map (newest count)).map (reduce (max d.points minPoints)) ∧
      (d.showWindow count).2.history = d.history ∧ (d.showWindow count).2.window = d.window ∧
      Unmoved d (d.showWindow count).2 := by
  unfold showWindow
  cases d.dumpRequest with
  | none => exact ⟨rfl, rfl, rfl, rfl, rfl, rfl, rfl⟩
  | some directory => exact ⟨rfl, rfl, rfl, rfl, rfl, rfl, rfl⟩

/-- Whether there is a window to look at. -/
def Visible (d : Display) : Prop :=
  d.rate.isPositive = true ∧ d.history ≠ [] ∧ 0 < windowLength d.rate.toFloat d.span

/-- The histories within twice the window. -/
def trimmed (d : Display) : List (List Sample) :=
  d.history.map (newest (min (2 * windowLength d.rate.toFloat d.span) (indexLimit - 1)))

theorem render_eq_of_not_visible (h : ¬d.Visible) :
    ∃ window coverage, d.render = (none, { d with window, coverage }) := by
  rw [render]
  by_cases hknown : (!d.rate.isPositive) = true ∨ d.history = []
  · rw [if_pos hknown]
    exact ⟨_, _, rfl⟩
  · have hzero : windowLength d.rate.toFloat d.span = 0 := by
      simp only [not_or, Bool.not_eq_true', Bool.not_eq_false] at hknown
      exact Nat.eq_zero_of_not_pos fun hpos => h ⟨hknown.1, hknown.2, hpos⟩
    rw [if_neg hknown]
    simp only [if_pos hzero]
    exact ⟨_, _, rfl⟩

theorem render_of_not_visible (h : ¬d.Visible) :
    d.render.1 = none ∧ d.render.2.history = d.history ∧ Unmoved d d.render.2 := by
  obtain ⟨window, coverage, heq⟩ := render_eq_of_not_visible h
  rw [heq]
  exact ⟨rfl, rfl, rfl, rfl, rfl, rfl⟩

/-- The display with its histories trimmed for a look. -/
def focused (d : Display) : Display :=
  { d with window := windowLength d.rate.toFloat d.span }.trim

theorem render_eq (h : d.Visible) :
    d.render = if shortest d.focused.history = 0 then (none, { d.focused with coverage := 0.0 })
      else
        let d := { d.focused with
          coverage := coverageOf (shortest d.focused.history) d.focused.window }
        let p := d.showWindow (min (shortest d.history) d.window)
        (some p.1, p.2) := by
  obtain ⟨hrate, hne, hpos⟩ := h
  have hknown : ¬((!d.rate.isPositive) = true ∨ d.history = []) := by
    simp [hrate, hne]
  rw [render, if_neg hknown]
  exact if_neg (Nat.ne_of_gt hpos)

theorem render_of_visible (h : d.Visible) :
    d.render.2.history = d.trimmed ∧ d.render.2.window = windowLength d.rate.toFloat d.span ∧
      Unmoved d d.render.2 ∧ d.render.1 = if shortest d.trimmed = 0 then none else
        some ((d.trimmed.map (newest (min (shortest d.trimmed)
          (windowLength d.rate.toFloat d.span)))).map (reduce (max d.points minPoints))) := by
  have hhistory : d.focused.history = d.trimmed := rfl
  rw [render_eq h, hhistory]
  by_cases hnone : shortest d.trimmed = 0
  · rw [if_pos hnone, if_pos hnone]
    exact ⟨rfl, rfl, ⟨rfl, rfl, rfl, rfl⟩, rfl⟩
  · rw [if_neg hnone, if_neg hnone]
    obtain ⟨hshown, hkept, hwindow, hrate, hspan, hpoints, happended⟩ := showWindow_keeps
      { d.focused with coverage := coverageOf (shortest d.trimmed) d.focused.window }
      (min (shortest d.trimmed) (windowLength d.rate.toFloat d.span))
    exact ⟨hkept, hwindow, ⟨hrate, hspan, hpoints, happended⟩, congrArg some hshown⟩

theorem render_unmoved (d : Display) : Unmoved d d.render.2 := by
  by_cases h : d.Visible
  · exact (render_of_visible h).2.2.1
  · exact (render_of_not_visible h).2.2

end Render

end Display

end Oscilloscope
