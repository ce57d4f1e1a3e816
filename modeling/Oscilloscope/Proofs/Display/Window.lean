import Mathlib.Data.List.Forall2
import Oscilloscope.Proofs.Decimation.Buckets
import Oscilloscope.Proofs.Display.History

/-!
# Oscilloscope.Proofs.Display.Window

A display shows the newest window of the signal.

* `Session.Sound`: the histories keep their signals, and the count of channel 0 is the length of
  its signal. `step_sound` and `run_sound` carry it through a run.
* `newest_history`, `min_shortest`: trimming does not show. What a window takes from the histories
  is what it would take from the signals, and they have as much of it.
* `frameOf_of_uniform`, `frameOf_of_wide`: parts of one length make a frame, unless they are longer
  than a frame can say.
* `Session.Sound.process_made`: what a call makes of the windows. `Session.Sound.process_cases`:
  the same as long as everything can be counted.
* `Session.run_shows_newest`: the three together, for the next call after any run.
-/

namespace Oscilloscope

namespace Display

/-! ## Signals and histories, channel by channel -/

section Channels

variable {windows : List Nat} {tails history : List (List Sample)}

theorem Keeps.getD (h : List.Forall₂ (Keeps windows) tails history) (channel : Nat) :
    Keeps windows ((tails[channel]?).getD []) ((history[channel]?).getD []) := by
  induction h generalizing channel with
  | nil => exact .nil
  | cons hk _ ih =>
    cases channel with
    | zero => exact hk
    | succ channel => exact ih channel

theorem shortest_eq (history : List (List Sample)) :
    shortest history = least (history.map List.length) := by
  cases history with
  | nil => rfl
  | cons h history => rfl

theorem shortest_le {h : List Sample} (hmem : h ∈ history) : shortest history ≤ h.length := by
  rw [shortest_eq]
  exact least_le (List.mem_map_of_mem hmem)

theorem shortest_pos : 0 < shortest history ↔ history ≠ [] ∧ ∀ h ∈ history, h ≠ [] := by
  cases history with
  | nil => exact ⟨fun h => absurd h (Nat.lt_irrefl 0), fun h => absurd rfl h.1⟩
  | cons h history =>
    have hne : (h :: history).map List.length ≠ [] := List.cons_ne_nil _ _
    rw [shortest_eq, ← Nat.succ_le_iff, le_least hne, List.forall_mem_map]
    constructor
    · intro hall
      exact ⟨List.cons_ne_nil _ _, fun h hmem => List.length_pos_iff.mp (hall h hmem)⟩
    · intro hall h hmem
      exact List.length_pos_iff.mpr (hall.2 h hmem)

theorem shortest_le_tail (h : List.Forall₂ (Keeps windows) tails history) {channel : Nat}
    {tail : List Sample} (htail : tails[channel]? = some tail) :
    shortest history ≤ tail.length := by
  have hlt : channel < history.length := by
    rw [← h.length_eq]
    exact (List.getElem?_eq_some_iff.mp htail).1
  have hkept := (Keeps.getD h channel).suffix.length_le
  rw [htail, List.getElem?_eq_getElem hlt] at hkept
  exact Nat.le_trans (shortest_le (List.getElem_mem hlt)) hkept

theorem min_shortest (h : List.Forall₂ (Keeps windows) tails history) {w : Nat}
    (hword : w < indexLimit) (hle : ∀ w' ∈ windows, w ≤ 2 * w') :
    min w (shortest history) = min w (shortest tails) := by
  rw [shortest_eq, shortest_eq]
  apply min_least_congr
  rw [List.forall₂_map_left_iff, List.forall₂_map_right_iff]
  exact (h.imp fun _ _ hk => hk.min_length hword hle).flip

/-- The newest samples of the histories are those of the signals, as long as all histories have
them. -/
theorem newest_history (h : List.Forall₂ (Keeps windows) tails history) {count : Nat}
    (hle : count ≤ shortest history) :
    history.map (newest count) = tails.map (newest count) := by
  have hall : ∀ h ∈ history, count ≤ h.length := fun h hmem => Nat.le_trans hle (shortest_le hmem)
  clear hle
  induction h with
  | nil => rfl
  | cons hk _ ih =>
    rw [List.forall_mem_cons] at hall
    rw [List.map_cons, List.map_cons, newest_of_suffix hk.suffix hall.1, ih hall.2]

end Channels

theorem windowLength_lt (rate span : Float) : windowLength rate span < indexLimit := by
  unfold windowLength
  split
  · exact UInt64.toNat_lt _
  · decide

/-! ## What is made of a window -/

theorem length_reduce {budget : Nat} (hbudget : minPoints ≤ budget) (window : List Sample) :
    (reduce budget window).length =
      if budget < window.length then 2 * (budget / 2) else window.length := by
  have hpair : 2 ≤ budget := hbudget
  rw [reduce]
  split
  · exact Decimation.length_minMax (by omega) (by omega)
  · rfl

/-- The frame shows the newest `count` samples of each channel of a signal. -/
def Shows (g : Frame) (budget count : Nat) (tails : List (List Sample)) : Prop :=
  ∀ channel, g.channel? channel =
    (tails[channel]?).map fun tail => reduce budget (newest count tail)

/-- `g` has the metadata of `f`, its rate apart. -/
structure Stamped (g f : Frame) : Prop where
  sequence : g.sequence = f.sequence
  timestamp : g.timestamp = f.timestamp
  flags : g.flags = f.flags
  firstIndex : g.firstIndex = f.firstIndex

section Parts

variable {shown : List (List Sample)} {each : Nat} (hne : shown ≠ [])
  (hall : ∀ part ∈ shown, part.length = each)
include hne hall

theorem length_headD : (shown.headD []).length = each := by
  obtain ⟨part, rest, rfl⟩ := List.exists_cons_of_ne_nil hne
  exact hall part List.mem_cons_self

variable (hpos : 0 < each) (hcount : shown.length < UInt32.size)
include hpos hcount

/-- Parts of one length make a frame. -/
theorem frameOf_of_uniform (d : Display) (f : Frame) (hword : each < UInt32.size) :
    ∃ g, d.frameOf f shown = some g ∧ g.channels.toNat = shown.length ∧
      g.samplesPerChannel.toNat = each ∧ Stamped g f ∧
      ∀ channel, g.channel? channel = shown[channel]? := by
  have hhead := length_headD hne hall
  have hchannels : (UInt32.ofNat shown.length).toNat = shown.length :=
    UInt32.toNat_ofNat_of_lt' hcount
  obtain ⟨g, hg, hsame, hlength, hchannel⟩ := Frame.ofSamples?_flatten hchannels.symm hall hword
  refine ⟨{ g with sequence := f.sequence, timestamp := f.timestamp, flags := f.flags,
                   rate := d.rate, firstIndex := f.firstIndex }, ?_, ?_, ?_, ⟨rfl, rfl, rfl, rfl⟩,
    hchannel⟩
  · rw [frameOf]
    simp only [hhead, if_neg (Nat.ne_of_gt hpos), hg]
  · exact (congrArg UInt32.toNat hsame).trans hchannels
  · exact (congrArg UInt32.toNat hlength).trans (UInt32.toNat_ofNat_of_lt' hword)

/-- Parts that are longer than a frame can say make none. -/
theorem frameOf_of_wide (d : Display) (f : Frame) (hwide : UInt32.size ≤ each) :
    d.frameOf f shown = none := by
  have hhead := length_headD hne hall
  have hflat : shown.flatten.length = shown.length * each := by
    rw [List.length_flatten, List.map_congr_left hall, List.map_const', List.sum_replicate_nat]
  have hmisfit : ¬shown.flatten.length =
      (UInt32.ofNat shown.length).toNat * (UInt32.ofNat each).toNat := by
    rw [hflat, UInt32.toNat_ofNat_of_lt' hcount]
    intro heq
    have hsame := Nat.eq_of_mul_eq_mul_left (List.length_pos_iff.mpr hne) heq
    have hword := (UInt32.ofNat each).toNat_lt
    have hsize : UInt32.size = 4294967296 := rfl
    omega
  rw [frameOf]
  simp only [hhead, if_neg (Nat.ne_of_gt hpos), Frame.ofSamples?, Frame.ofStorage?, Storage.samples,
    dif_neg hmisfit]

end Parts

theorem process_cons (d : Display) (f : Frame) (left : List Frame) :
    (d.process (f :: left)).stage = (d.accumulate f).render.2 ∧
      (d.process (f :: left)).made =
        ((d.accumulate f).render.1.bind ((d.accumulate f).render.2.frameOf f)).toList := by
  simp only [process]
  cases (d.accumulate f).render.1.bind ((d.accumulate f).render.2.frameOf f) with
  | none => exact ⟨rfl, rfl⟩
  | some g => exact ⟨rfl, rfl⟩

/-! ## The invariant -/

namespace Session

/-- The histories keep the signals. `total` bounds what any channel was given. -/
structure Sound (total : Nat) (s : Session) : Prop where
  rate : s.display.rate = s.past.rate
  keeps : List.Forall₂ (Keeps s.past.windows) s.past.tails s.display.history
  appended : s.display.appended = ((s.past.tails[0]?).getD []).length
  bounded : ∀ tail ∈ s.past.tails, tail.length ≤ total
  word : s.past.tails.length < UInt32.size

def start (points : Nat) (span : Float) : Session := { display := Display.new points span }

theorem start_sound (points : Nat) (span : Float) : (start points span).Sound 0 where
  rate := rfl
  keeps := .nil
  appended := rfl
  bounded := fun _ hmem => absurd hmem List.not_mem_nil
  word := by simp [start, UInt32.size]

namespace Sound

variable {total : Nat} {d : Display} {p : Past}

theorem mono {s : Session} {total' : Nat} (h : s.Sound total) (hle : total ≤ total') :
    s.Sound total' :=
  { h with bounded := fun tail hmem => Nat.le_trans (h.bounded tail hmem) hle }

theorem length_tail_le (h : Sound total ⟨d, p⟩) (channel : Nat) :
    ((p.tails[channel]?).getD []).length ≤ total := by
  cases htail : p.tails[channel]? with
  | none => exact Nat.zero_le _
  | some tail => exact h.bounded tail (List.mem_of_getElem? htail)

theorem clears_eq (h : Sound total ⟨d, p⟩) (f : Frame) : d.clears f = p.changes f := by
  rw [clears, Past.changes, h.rate]

theorem accumulate (h : Sound total ⟨d, p⟩) (f : Frame) (left : List Frame) :
    Sound (total + (Event.process (f :: left)).offered) ⟨d.accumulate f, p.append f⟩ := by
  cases hvoid : isVoid f with
  | true =>
    rw [accumulate_of_void hvoid, Past.append, if_pos hvoid]
    exact h.mono (Nat.le_add_right _ _)
  | false =>
    have happend : p.append f = _ := if_neg (ne_true_of_eq_false hvoid)
    have hfirst : 0 < f.channels.toNat := channels_pos hvoid
    rw [happend, Event.offered, if_neg (channels_ne_zero hvoid)]
    constructor
    · show (d.accumulate f).rate = _
      rw [accumulate_rate hvoid, h.rate]
    · show List.Forall₂ _ _ (d.accumulate f).history
      rw [accumulate_history hvoid, List.forall₂_map_left_iff, List.forall₂_map_right_iff,
        List.forall₂_same]
      intro channel _
      apply Keeps.append
      -- History and signal start anew at the same frames.
      rw [h.clears_eq]
      cases p.changes f with
      | true => exact .nil
      | false => exact Keeps.getD h.keeps channel
    · show (d.accumulate f).appended = _
      rw [accumulate_appended hvoid, h.clears_eq, List.getElem?_map, List.getElem?_range hfirst,
        Option.map_some, Option.getD_some, List.length_append, f.length_samplesOf hfirst]
      cases p.changes f with
      | true => rfl
      | false => exact congrArg (· + _) h.appended
    · intro tail hmem
      obtain ⟨channel, hchannel, rfl⟩ := List.mem_map.mp hmem
      rw [List.length_append, f.length_samplesOf (List.mem_range.mp hchannel)]
      have hold := h.length_tail_le channel
      cases p.changes f with
      | true => exact Nat.add_le_add_right (Nat.zero_le _) _
      | false => exact Nat.add_le_add_right hold _
    · show ((List.range f.channels.toNat).map _).length < _
      rw [List.length_map, List.length_range]
      exact f.channels.toNat_lt

theorem visible_iff (h : Sound total ⟨d, p⟩) :
    d.Visible ↔ p.rate.isPositive = true ∧ p.tails ≠ [] ∧
      0 < windowLength p.rate.toFloat d.span := by
  have hne : d.history ≠ [] ↔ p.tails ≠ [] := by
    rw [← List.length_pos_iff, ← List.length_pos_iff, h.keeps.length_eq]
  have hrate : d.rate = p.rate := h.rate
  rw [Visible, hrate, hne]

theorem look_of_visible (h : Sound total ⟨d, p⟩) (hvisible : d.Visible) :
    p.look d.span = { p with windows := windowLength d.rate.toFloat d.span :: p.windows } := by
  have hrate : d.rate = p.rate := h.rate
  rw [Past.look, if_pos (h.visible_iff.mp hvisible), hrate]

theorem look_of_not_visible (h : Sound total ⟨d, p⟩) (hvisible : ¬d.Visible) :
    p.look d.span = p := by
  rw [Past.look, if_neg fun hsome => hvisible (h.visible_iff.mpr hsome)]

theorem trimmed (h : Sound total ⟨d, p⟩) :
    List.Forall₂ (Keeps (windowLength d.rate.toFloat d.span :: p.windows)) p.tails d.trimmed := by
  rw [Display.trimmed, List.forall₂_map_right_iff]
  exact h.keeps.imp fun _ _ hk => hk.trim _

theorem render (h : Sound total ⟨d, p⟩) : Sound total ⟨d.render.2, p.look d.span⟩ := by
  have hsame := d.render_unmoved
  by_cases hvisible : d.Visible
  · rw [h.look_of_visible hvisible]
    constructor
    · exact hsame.rate.trans h.rate
    · show List.Forall₂ _ _ d.render.2.history
      rw [(render_of_visible hvisible).1]
      exact h.trimmed
    · exact hsame.appended.trans h.appended
    · exact h.bounded
    · exact h.word
  · rw [h.look_of_not_visible hvisible]
    constructor
    · exact hsame.rate.trans h.rate
    · show List.Forall₂ _ _ d.render.2.history
      rw [(render_of_not_visible hvisible).2.1]
      exact h.keeps
    · exact hsame.appended.trans h.appended
    · exact h.bounded
    · exact h.word

theorem visible_some_iff (h : Sound total ⟨d, p⟩) :
    (d.Visible ∧ 0 < shortest d.trimmed) ↔
      p.rate.isPositive = true ∧ 0 < windowLength p.rate.toFloat d.span ∧ p.tails ≠ [] ∧
        ∀ h ∈ d.render.2.history, h ≠ [] := by
  by_cases hvisible : d.Visible
  · obtain ⟨hknown, hne, hpos⟩ := h.visible_iff.mp hvisible
    have htrimmed : d.trimmed ≠ [] := by
      rw [← List.length_pos_iff, ← h.trimmed.length_eq]
      exact List.length_pos_iff.mpr hne
    rw [(render_of_visible hvisible).1, shortest_pos]
    exact ⟨fun hboth => ⟨hknown, hpos, hne, hboth.2.2⟩,
      fun hall => ⟨hvisible, htrimmed, hall.2.2.2⟩⟩
  · constructor
    · intro hboth
      exact absurd hboth.1 hvisible
    · intro hall
      exact absurd (h.visible_iff.mpr ⟨hall.1, hall.2.2.1, hall.2.1⟩) hvisible

end Sound

variable {total : Nat}

theorem step_process (s : Session) (f : Frame) (left : List Frame) :
    s.step (.process (f :: left)) =
      ⟨(s.display.accumulate f).render.2,
        (s.past.append f).look (s.display.accumulate f).span⟩ := by
  rw [accumulate_span]
  show (⟨_, _⟩ : Session) = _
  rw [(process_cons s.display f left).1]

theorem step_sound {s : Session} (h : s.Sound total) (e : Event) :
    (s.step e).Sound (total + e.offered) := by
  cases e with
  | process batch =>
    cases batch with
    | nil => exact h
    | cons f left =>
      rw [step_process]
      exact (h.accumulate f left).render
  | setSpan span => exact { h with }
  | setPoints points => exact { h with }
  | requestDump directory => exact { h with }

theorem run_sound {s : Session} (h : s.Sound total) (events : List Event) :
    (s.run events).Sound (total + (events.map Event.offered).sum) := by
  induction events generalizing s total with
  | nil => exact h
  | cons e events ih =>
    rw [List.map_cons, List.sum_cons, ← Nat.add_assoc]
    exact ih (step_sound h e)

/-- The histories are ends of the signals, and channel 0 was given what its history holds. -/
structure Retains (s : Session) : Prop where
  rate : s.display.rate = s.past.rate
  suffix : List.Forall₂ (fun tail h => h <:+ tail) s.past.tails s.display.history
  counted : (s.display.history.headD []).length ≤ s.display.appended

theorem Sound.retains {s : Session} (h : s.Sound total) : s.Retains where
  rate := h.rate
  suffix := h.keeps.imp fun _ _ hk => hk.suffix
  counted := by
    have hfirst := (Keeps.getD h.keeps 0).suffix.length_le
    rwa [h.appended, List.headD_eq_head?_getD, List.head?_eq_getElem?]

/-- The window length for the rate and the span. -/
def window (s : Session) : Nat := windowLength s.past.rate.toFloat s.display.span

/-- How much of the window all histories have. -/
def depth (s : Session) : Nat := min s.window (shortest s.display.history)

/-- There is a rate, a window, and a history of every channel. -/
def Ready (s : Session) : Prop :=
  s.past.rate.isPositive = true ∧ 0 < s.window ∧ s.past.tails ≠ [] ∧
    ∀ h ∈ s.display.history, h ≠ []

theorem depth_lt (s : Session) : s.depth < indexLimit :=
  Nat.lt_of_le_of_lt (Nat.min_le_left _ _) (windowLength_lt _ _)

theorem Sound.history_ne_nil {s : Session} (h : s.Sound total) (hready : s.Ready) :
    s.display.history ≠ [] := by
  rw [← List.length_pos_iff, ← h.keeps.length_eq]
  exact List.length_pos_iff.mpr hready.2.2.1

theorem Sound.depth_pos {s : Session} (h : s.Sound total) (hready : s.Ready) : 0 < s.depth :=
  Nat.lt_min.mpr ⟨hready.2.1, shortest_pos.mpr ⟨h.history_ne_nil hready, hready.2.2.2⟩⟩

theorem Sound.depth_le {s : Session} (h : s.Sound total) (hready : s.Ready) : s.depth ≤ total := by
  obtain ⟨tail, hmem⟩ := List.exists_mem_of_ne_nil _ hready.2.2.1
  obtain ⟨channel, hget⟩ := List.mem_iff_getElem?.mp hmem
  have hshort := shortest_le_tail h.keeps hget
  have hbound := h.bounded tail hmem
  exact Nat.le_trans (Nat.min_le_right _ _) (Nat.le_trans hshort hbound)

/-- A window within twice all windows so far finds in the histories what it would find in the
signals. -/
theorem Sound.depth_eq {s : Session} (h : s.Sound total)
    (hle : ∀ w ∈ s.past.windows, s.window ≤ 2 * w) :
    s.depth = min s.window (shortest s.past.tails) :=
  min_shortest h.keeps (windowLength_lt _ _) hle

/-! ### What a call shows -/

def budget (s : Session) : Nat := max s.display.points minPoints

/-- The newest samples of every channel, as far back as all channels reach. -/
def windows (s : Session) : List (List Sample) := s.display.history.map (newest s.depth)

/-- The windows within the budget. -/
def shown (s : Session) : List (List Sample) := s.windows.map (reduce s.budget)

/-- How many samples of every channel are shown. -/
def each (s : Session) : Nat := if s.budget < s.depth then 2 * (s.budget / 2) else s.depth

section Shown

variable {s : Session}

theorem two_le_budget (s : Session) : 2 ≤ s.budget := Nat.le_max_right _ _

theorem each_le_depth (s : Session) : s.each ≤ s.depth := by
  rw [each]
  split
  · omega
  · exact Nat.le_refl _

theorem each_le_budget (s : Session) : s.each ≤ s.budget := by
  rw [each]
  split
  · omega
  · omega

theorem each_pos (hpos : 0 < s.depth) : 0 < s.each := by
  have hpair := s.two_le_budget
  rw [each]
  split
  · omega
  · exact hpos

theorem length_of_mem_windows {window : List Sample} (hwindow : window ∈ s.windows) :
    window.length = s.depth := by
  obtain ⟨h, hmem, rfl⟩ := List.mem_map.mp hwindow
  rw [length_newest]
  exact Nat.min_eq_left (Nat.le_trans (Nat.min_le_right _ _) (shortest_le hmem))

theorem length_of_mem_shown {part : List Sample} (hpart : part ∈ s.shown) :
    part.length = s.each := by
  obtain ⟨window, hwindow, rfl⟩ := List.mem_map.mp hpart
  rw [length_reduce s.two_le_budget, length_of_mem_windows hwindow, each]

theorem length_shown (s : Session) : s.shown.length = s.display.history.length := by
  rw [shown, windows, List.length_map, List.length_map]

theorem Sound.shown_ne_nil (h : s.Sound total) (hready : s.Ready) : s.shown ≠ [] := by
  rw [← List.length_pos_iff, length_shown]
  exact List.length_pos_iff.mpr (h.history_ne_nil hready)

theorem Sound.length_shown_lt (h : s.Sound total) : s.shown.length < UInt32.size := by
  rw [length_shown, ← h.keeps.length_eq]
  exact h.word

/-- The windows of the histories are the windows of the signals. -/
theorem Sound.windows_eq (h : s.Sound total) : s.windows = s.past.tails.map (newest s.depth) :=
  newest_history h.keeps (Nat.min_le_right _ _)

/-- `g` shows the windows of `s` and carries the metadata of `f`. -/
structure Emits (s : Session) (f g : Frame) : Prop where
  channels : g.channels.toNat = s.display.history.length
  length : g.samplesPerChannel.toNat = s.each
  stamped : Stamped g f
  channel : ∀ channel, g.channel? channel = s.shown[channel]?

theorem Emits.shows {f g : Frame} (hg : s.Emits f g) (h : s.Sound total) :
    Shows g s.budget s.depth s.past.tails := by
  intro channel
  rw [hg.channel, shown, h.windows_eq, List.map_map, List.getElem?_map]
  rfl

end Shown

section Call

variable {s : Session} (h : s.Sound total) (f : Frame) (left : List Frame)
include h

theorem Sound.window_process : (s.step (.process (f :: left))).window =
    windowLength (s.display.accumulate f).rate.toFloat (s.display.accumulate f).span := by
  have hmid : Sound _ ⟨s.display.accumulate f, s.past.append f⟩ := h.accumulate f left
  have hrate : (s.display.accumulate f).rate = (s.past.append f).rate := hmid.rate
  rw [step_process, window, Past.look_rate, (s.display.accumulate f).render_unmoved.span, hrate]

/-- A call finds a window exactly if the frame completes one. -/
theorem Sound.ready_process : (s.step (.process (f :: left))).Ready ↔
    (s.display.accumulate f).Visible ∧ 0 < shortest (s.display.accumulate f).trimmed := by
  have hmid : Sound _ ⟨s.display.accumulate f, s.past.append f⟩ := h.accumulate f left
  have hrate : (s.display.accumulate f).rate = (s.past.append f).rate := hmid.rate
  rw [hmid.visible_some_iff, Ready, h.window_process, step_process, hrate]
  dsimp only
  rw [Past.look_rate, Past.look_tails]

theorem Sound.windows_of_ready (hready : (s.step (.process (f :: left))).Ready) :
    let d := s.display.accumulate f
    (s.step (.process (f :: left))).windows =
      d.trimmed.map (newest (min (shortest d.trimmed) (windowLength d.rate.toFloat d.span))) := by
  obtain ⟨hvisible, -⟩ := (h.ready_process f left).mp hready
  rw [windows, depth, h.window_process, step_process, (render_of_visible hvisible).1, Nat.min_comm]

theorem Sound.render_of_ready (hready : (s.step (.process (f :: left))).Ready) :
    let s' := s.step (.process (f :: left))
    (s.display.accumulate f).render.1 = some s'.shown ∧ s'.display.window = s'.window := by
  obtain ⟨hvisible, hsome⟩ := (h.ready_process f left).mp hready
  obtain ⟨-, hwindow, hsame, hshown⟩ := render_of_visible hvisible
  refine ⟨?_, ?_⟩
  · rw [hshown, if_neg (Nat.ne_of_gt hsome), shown, h.windows_of_ready f left hready, budget,
      step_process, hsame.points]
  · rw [h.window_process, step_process, hwindow]

theorem Sound.render_of_not_ready (hnot : ¬(s.step (.process (f :: left))).Ready) :
    (s.display.accumulate f).render.1 = none := by
  rw [h.ready_process] at hnot
  by_cases hvisible : (s.display.accumulate f).Visible
  · have hnone : shortest (s.display.accumulate f).trimmed = 0 :=
      Nat.eq_zero_of_not_pos fun hsome => hnot ⟨hvisible, hsome⟩
    rw [(render_of_visible hvisible).2.2.2, if_pos hnone]
  · exact (render_of_not_visible hvisible).1

/-- What a call makes: a frame with the windows, unless there is none or it is longer than a frame
can say. -/
theorem Sound.process_made :
    let s' := s.step (.process (f :: left))
    let made := (s.display.process (f :: left)).made
    (made = [] ∧ ¬s'.Ready) ∨ (made = [] ∧ s'.Ready ∧ UInt32.size ≤ s'.each) ∨
      ∃ g, made = [g] ∧ s'.Ready ∧ s'.each < UInt32.size ∧ s'.Emits f g := by
  intro s' made
  have hs' : s'.Sound _ := step_sound h (.process (f :: left))
  have hmade : made = _ := (process_cons s.display f left).2
  by_cases hready : s'.Ready
  · right
    have hpos := each_pos (hs'.depth_pos hready)
    have hcount := hs'.length_shown_lt
    have hne := hs'.shown_ne_nil hready
    rw [hmade, (h.render_of_ready f left hready).1, Option.bind_some]
    by_cases hword : s'.each < UInt32.size
    · right
      obtain ⟨g, hg, hchannels, hlength, hstamped, hchannel⟩ := frameOf_of_uniform hne
        (fun _ => length_of_mem_shown) hpos hcount (s.display.accumulate f).render.2 f hword
      rw [hg]
      exact ⟨g, rfl, hready, hword, hchannels.trans (length_shown s'), hlength, hstamped, hchannel⟩
    · left
      rw [frameOf_of_wide hne (fun _ => length_of_mem_shown) hpos hcount _ f (by omega)]
      exact ⟨rfl, hready, by omega⟩
  · left
    rw [hmade, h.render_of_not_ready f left hready]
    exact ⟨rfl, hready⟩

theorem Sound.emits_of_mem {g : Frame} (hmem : g ∈ (s.display.process (f :: left)).made) :
    let s' := s.step (.process (f :: left))
    (s.display.process (f :: left)).made = [g] ∧ s'.Ready ∧ s'.Emits f g := by
  intro s'
  rcases h.process_made f left with ⟨hnone, -⟩ | ⟨hnone, -⟩ | ⟨g', hg, hready, -, hemits⟩
  · rw [hnone] at hmem
    exact absurd hmem List.not_mem_nil
  · rw [hnone] at hmem
    exact absurd hmem List.not_mem_nil
  · rw [hg, List.mem_singleton] at hmem
    subst hmem
    exact ⟨hg, hready, hemits⟩

/-- What a call shows. -/
theorem Sound.process_cases
    (htotal : total + (Event.process (f :: left)).offered < UInt32.size) :
    let s' := s.step (.process (f :: left))
    let made := (s.display.process (f :: left)).made
    (made = [] ∧ ¬s'.Ready) ∨ ∃ g, made = [g] ∧ s'.Ready ∧ s'.display.window = s'.window ∧
      Shows g (max s'.display.points minPoints) s'.depth s'.past.tails := by
  intro s' made
  have hs' : s'.Sound _ := step_sound h (.process (f :: left))
  rcases h.process_made f left with hnone | ⟨-, hready, hwide⟩ | ⟨g, hg, hready, -, hemits⟩
  · exact .inl hnone
  · have hdepth := hs'.depth_le hready
    have heach := s'.each_le_depth
    exact absurd (Nat.lt_of_le_of_lt (Nat.le_trans heach hdepth) htotal) (Nat.not_lt.mpr hwide)
  · exact .inr ⟨g, hg, hready, (h.render_of_ready f left hready).2, hemits.shows hs'⟩

end Call

/-- After any calls with frames and any changes of the settings, the histories are what is left of
the signals, and the next call shows the newest window. -/
theorem run_shows_newest (points : Nat) (span : Float) (events : List Event) (f : Frame)
    (left : List Frame) (hcount : (events.map Event.offered).sum +
      (Event.process (f :: left)).offered < 2147483648) :
    let s := (start points span).run events
    let s' := s.step (.process (f :: left))
    let made := (s.display.process (f :: left)).made
    let w := windowLength s'.past.rate.toFloat s'.display.span
    s.Retains ∧ s'.Retains ∧ made.length ≤ 1 ∧
      (made ≠ [] ↔ s'.past.rate.isPositive = true ∧ 0 < w ∧ s'.past.tails ≠ [] ∧
        ∀ h ∈ s'.display.history, h ≠ []) ∧
      ((∀ w' ∈ s'.past.windows, w ≤ 2 * w') → ∀ g ∈ made, s'.display.window = w ∧
        Shows g (max s'.display.points minPoints) (min w (shortest s'.past.tails))
          s'.past.tails) := by
  intro s s' made w
  have hs : s.Sound (0 + (events.map Event.offered).sum) := run_sound (start_sound points span) _
  rw [Nat.zero_add] at hs
  have hs' : s'.Sound _ := step_sound hs (.process (f :: left))
  refine ⟨hs.retains, hs'.retains, ?_⟩
  rcases hs.process_cases f left (Nat.lt_trans hcount (by decide)) with
    ⟨hnone, hnot⟩ | ⟨g, hg, hready, hlength, hshows⟩
  · have hmade : made = [] := hnone
    rw [hmade]
    refine ⟨Nat.zero_le 1, ?_, fun _ g hmem => absurd hmem List.not_mem_nil⟩
    exact ⟨fun hne => absurd rfl hne, fun hready => absurd hready hnot⟩
  · have hmade : made = [g] := hg
    rw [hmade]
    refine ⟨Nat.le_refl 1, ⟨fun _ => hready, fun _ => List.cons_ne_nil _ _⟩, ?_⟩
    intro hle g' hmem
    obtain rfl := List.mem_singleton.mp hmem
    have hsame : s'.depth = min w (shortest s'.past.tails) := hs'.depth_eq hle
    rw [← hsame]
    exact ⟨hlength, hshows⟩

/-- Two channels at 16 per second, after one of them was there alone and after another rate. The
window has six samples and the budget is four. -/
theorem run_shows_newest_of_two :
    let slow : Double := ⟨0x4030000000000000⟩
    let fast : Double := ⟨0x4040000000000000⟩
    let one (rate : Double) : Frame := { channels := 1, samplesPerChannel := 3, rate
                                         storage := .owned [1, 2, 3], fits := rfl }
    let two : Frame := { channels := 2, samplesPerChannel := 4, rate := slow
                         storage := .owned [4, 5, 6, 7, 14, 15, 16, 17], fits := rfl }
    let last : Frame := { channels := 2, samplesPerChannel := 2, rate := slow
                          storage := .owned [8, 9, 18, 19], fits := rfl }
    let events : List Event := [.process [one fast], .process [one slow], .setSpan 0.375,
      .process [two], .requestDump "dump", .setPoints 4]
    ∃ g ∈ (((start 3840 0.25).run events).display.process [last]).made,
      g.channel? 0 = some [4, 6, 7, 9] ∧ g.channel? 1 = some [14, 16, 17, 19] := by
  intro slow fast one two last events
  obtain ⟨-, -, -, hmade, hnewest⟩ := run_shows_newest 3840 0.25 events last []
    (by decide +kernel)
  obtain ⟨g, hg⟩ := List.exists_mem_of_ne_nil _ (hmade.mpr (by decide +kernel))
  have hshows := (hnewest (by decide +kernel) g hg).2
  exact ⟨g, hg, (hshows 0).trans (by decide +kernel), (hshows 1).trans (by decide +kernel)⟩

end Session

end Display

end Oscilloscope
