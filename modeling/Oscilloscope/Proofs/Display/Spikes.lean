import Oscilloscope.Proofs.Decimation.Enclosing
import Oscilloscope.Proofs.Decimation.Frames
import Oscilloscope.Proofs.Display.Window

/-!
# Oscilloscope.Proofs.Display.Spikes

No spike is lost between a decimator and what a display shows.

`Scope` is a display behind a decimator. Frames are reduced twice, once each and once in the window,
with buckets that have nothing to do with each other.

* `Scope.Follows`: the signals of the display are the reduced frames, one behind the other. It holds
  as long as the rate of the reduced frames stays what it is (`run_follows`).
* `encloses_reduce`: what is shown encloses the window. With `Decimation.decimate_encloses` it
  encloses every frame in the window.
* `Scope.run_keeps_spikes`: both, for the next frame after any run.
-/

namespace Oscilloscope

open Decimation

/-! ## Frames of one rate -/

/-- Where two frames have samples and a rate, it is the same. -/
def Steady (f g : Frame) : Prop :=
  Display.isVoid f = false → Display.isVoid g = false → f.rate.isPositive = true →
    g.rate.isPositive = true → g.rate.agrees f.rate = true

instance (f g : Frame) : Decidable (Steady f g) :=
  inferInstanceAs (Decidable (Display.isVoid f = false → Display.isVoid g = false →
    f.rate.isPositive = true → g.rate.isPositive = true → g.rate.agrees f.rate = true))

/-- The frames that a decimator makes of some frames. -/
def Decimator.outputs (d : Decimator) : List Frame → List Frame
  | [] => []
  | f :: rest => (d.decimateFrame f).1 :: (d.decimateFrame f).2.outputs rest

namespace Display

theorem Past.changes_append {p : Past} {g g' : Frame}
    (hkept : isVoid g' = false → p.changes g' = false) (hsteady : Steady g g')
    (hvoid' : isVoid g' = false) : (p.append g).changes g' = false := by
  cases hvoid : isVoid g with
  | true =>
    rw [Past.append, if_pos hvoid]
    exact hkept hvoid'
  | false =>
    rw [Past.append, if_neg (ne_true_of_eq_false hvoid), Past.changes]
    dsimp only
    cases hrate : g.rate.isPositive with
    | false => exact hkept hvoid'
    | true =>
      cases hrate' : g'.rate.isPositive with
      | false => rfl
      | true => simp [hsteady hvoid hvoid' hrate hrate']

theorem Past.signal_append {p : Past} {g : Frame}
    (hkept : isVoid g = false → p.changes g = false) {channel : Nat}
    (hlt : channel < g.channels.toNat) :
    ((p.append g).tails[channel]?).getD [] =
      (p.tails[channel]?).getD [] ++ g.samplesOf channel := by
  cases hvoid : isVoid g with
  | true =>
    have hempty : g.channels = 0 ∨ g.samplesPerChannel = 0 := by simpa [isVoid] using hvoid
    have hnone : g.samplesOf channel = [] := by
      rw [← List.length_eq_zero_iff, g.length_samplesOf hlt]
      rcases hempty with hzero | hzero
      · rw [hzero] at hlt
        exact absurd hlt (Nat.not_lt_zero _)
      · rw [hzero]
        rfl
    rw [Past.append, if_pos hvoid, hnone, List.append_nil]
  | false =>
    rw [Past.append, if_neg (ne_true_of_eq_false hvoid), hkept hvoid]
    dsimp only
    rw [List.getElem?_map, List.getElem?_range hlt]
    rfl

theorem Past.length_append_le {p : Past} {g : Frame} {channels : Nat}
    (hle : p.tails.length ≤ channels) (hg : g.channels.toNat = channels) :
    (p.append g).tails.length ≤ channels := by
  unfold Past.append
  split
  · exact hle
  · exact Nat.le_of_eq (by rw [List.length_map, List.length_range, hg])

/-- What is shown of a window encloses it. -/
theorem encloses_reduce {budget : Nat} (hbudget : minPoints ≤ budget) {window : List Sample}
    (hn : window.length < indexLimit) : Encloses (reduce budget window) window := by
  have hpair : 2 ≤ budget := hbudget
  rw [reduce]
  split
  · exact minMax_encloses (by omega) hn
  · exact .refl window

section Blocks

variable {α : Type} {sources : List α} {raw block : α → List Sample} {count : Nat}
  {shown : List Sample} (hblock : ∀ a ∈ sources, Encloses (block a) (raw a))
  (hshown : Encloses shown (newest count (sources.flatMap block)))
include hblock hshown

theorem mem_source {v : Sample} (hv : v ∈ shown) : ∃ a ∈ sources, v ∈ raw a := by
  have hwindow := hshown.subset v hv
  have htail := (newest_suffix _ _).subset hwindow
  obtain ⟨a, ha, hmem⟩ := List.mem_flatMap.mp htail
  exact ⟨a, ha, (hblock a ha).subset v hmem⟩

/-- What is shown spans the blocks that are in the window as a whole. -/
theorem spans_source {lo hi : Sample} (hspans : Spans shown lo hi) {before after : List α} {a : α}
    (heq : sources = before ++ a :: after)
    (hinside : ((a :: after).flatMap block).length ≤ count) {x : Sample} (hx : x ∈ raw a) :
    lo ≤ x ∧ x ≤ hi := by
  have ha : a ∈ sources := heq ▸ List.mem_append_right _ List.mem_cons_self
  have hwindow : ∀ y ∈ block a, lo ≤ y ∧ y ≤ hi := by
    intro y hy
    apply hshown.between hspans
    rw [heq, List.flatMap_append]
    apply mem_newest_append hinside
    rw [List.flatMap_cons]
    exact List.mem_append_left _ hy
  obtain ⟨y, hy, hle⟩ := (hblock a ha).below x hx
  obtain ⟨z, hz, hge⟩ := (hblock a ha).above x hx
  exact ⟨Int16.le_trans (hwindow y hy).1 hle, Int16.le_trans hge (hwindow z hz).2⟩

end Blocks

end Display

/-! ## The scope -/

/-- A display behind a decimator. -/
structure Scope where
  decimator : Decimator
  session : Display.Session

namespace Scope

inductive Event where
  | frame (f : Frame)
  | setSpan (span : Float)
  | setPoints (points : Nat)

def step (s : Scope) : Event → Scope
  | .frame f =>
    { decimator := (s.decimator.process [f]).stage
      session := s.session.step (.process (s.decimator.process [f]).made) }
  | .setSpan span => { s with session := s.session.step (.setSpan span) }
  | .setPoints points => { s with session := s.session.step (.setPoints points) }

def run (s : Scope) (events : List Event) : Scope := events.foldl step s

def start (mode : Mode) (target points : Nat) (span : Float) : Scope :=
  { decimator := .new mode target, session := .start points span }

def frames : List Event → List Frame
  | [] => []
  | .frame f :: rest => f :: frames rest
  | _ :: rest => frames rest

/-- The signals of the display are the reduced frames `past`, and `next` will not change the
rate. -/
structure Follows (mode : Mode) (target channels : Nat) (past next : List Frame) (s : Scope) :
    Prop where
  settings : s.decimator.mode = mode ∧ s.decimator.target = target
  sound : s.session.Sound (2 * (past.map fun f => f.samplesPerChannel.toNat).sum)
  few : s.session.past.tails.length ≤ channels
  signal : ∀ channel < channels, (s.session.past.tails[channel]?).getD [] =
    past.flatMap fun f => decimate (f.samplesOf channel) mode target
  kept : ∀ g ∈ s.decimator.outputs next, Display.isVoid g = false →
    s.session.past.changes g = false
  steady : (s.decimator.outputs next).Pairwise Steady

section Follows

variable {mode : Mode} {target channels : Nat} {past next : List Frame} {s : Scope}

theorem start_follows (points : Nat) (span : Float)
    (hsteady : ((Decimator.new mode target).outputs next).Pairwise Steady) :
    (start mode target points span).Follows mode target channels [] next where
  settings := ⟨rfl, rfl⟩
  sound := Display.Session.start_sound points span
  few := Nat.zero_le _
  signal := fun _ _ => rfl
  kept := by
    intro g _ _
    have hzero : Double.zero.isPositive = false := by decide +kernel
    show (g.rate.isPositive && Double.zero.isPositive && _) = false
    rw [hzero, Bool.and_false, Bool.false_and]
  steady := hsteady

theorem step_frame (s : Scope) (f : Frame) :
    s.step (.frame f) = { decimator := (s.decimator.decimateFrame f).2
                          session := s.session.step
                            (.process [(s.decimator.decimateFrame f).1]) } := rfl

/-- A reduction brings at most twice as many samples. -/
theorem offered_le (d : Decimator) {f : Frame} (hsmall : f.samplesPerChannel.toNat < 2147483648) :
    (Display.Event.process [(d.decimateFrame f).1]).offered ≤ 2 * f.samplesPerChannel.toNat := by
  rw [Display.Event.offered, (d.decimateFrame_eq hsmall).2.1,
    UInt32.toNat_ofNat_of_lt' (Decimator.reducedLength_lt hsmall _ _)]
  split
  · exact Nat.zero_le _
  · exact Decimator.reducedLength_le f _ _

theorem step_follows {f : Frame} (hextremal : Extremal mode target)
    (h : s.Follows mode target channels past (f :: next)) (hchannels : f.channels.toNat = channels)
    (hsmall : f.samplesPerChannel.toNat < 2147483648) :
    (s.step (.frame f)).Follows mode target channels (past ++ [f]) next := by
  obtain ⟨hmode, htarget⟩ := h.settings
  obtain ⟨hsame, -, hchannel⟩ := s.decimator.decimateFrame_eq hsmall
  rw [hmode, htarget, hextremal.effective] at hchannel
  have hsteady := h.steady
  have hkept := h.kept
  rw [Decimator.outputs] at hsteady hkept
  rw [List.pairwise_cons] at hsteady
  rw [List.forall_mem_cons] at hkept
  rw [step_frame]
  constructor
  · exact ⟨hmode, htarget⟩
  · have hnext := Display.Session.step_sound h.sound
      (.process [(s.decimator.decimateFrame f).1])
    refine hnext.mono ?_
    rw [List.map_append, List.sum_append, List.map_singleton, List.sum_singleton, Nat.mul_add]
    exact Nat.add_le_add_left (offered_le s.decimator hsmall) _
  · show ((s.session.past.append _).look _).tails.length ≤ channels
    rw [Display.Past.look_tails]
    exact Display.Past.length_append_le h.few (by rw [hsame, hchannels])
  · intro channel hlt
    show ((((s.session.past.append _).look _).tails)[channel]?).getD [] = _
    have hin : channel < f.channels.toNat := by omega
    have hnew : (s.decimator.decimateFrame f).1.samplesOf channel =
        decimate (f.samplesOf channel) mode target := by
      rw [Frame.samplesOf, hchannel, Decimator.channelsOf, List.getElem?_map,
        List.getElem?_range hin]
      rfl
    rw [Display.Past.look_tails, Display.Past.signal_append hkept.1 (by rwa [hsame]),
      h.signal channel hlt, hnew, List.flatMap_append, List.flatMap_singleton]
  · intro g hg hvoid
    show ((s.session.past.append _).look _).changes g = false
    rw [Display.Past.changes, Display.Past.look_rate]
    exact Display.Past.changes_append (hkept.2 g hg) (hsteady.1 g hg) hvoid
  · exact hsteady.2

/-- A run of frames of one shape and one rate puts the reduced frames behind each other. -/
theorem run_follows (hextremal : Extremal mode target) {events : List Event}
    (h : s.Follows mode target channels past (frames events ++ next))
    (hframes : ∀ f ∈ frames events, f.channels.toNat = channels ∧
      f.samplesPerChannel.toNat < 2147483648) :
    (s.run events).Follows mode target channels (past ++ frames events) next := by
  induction events generalizing s past with
  | nil =>
    rw [frames, List.append_nil]
    exact h
  | cons e events ih =>
    cases e with
    | frame f =>
      rw [frames, List.forall_mem_cons] at hframes
      have hstep := step_follows hextremal h hframes.1.1 hframes.1.2
      rw [frames, List.append_cons]
      exact ih hstep hframes.2
    | setSpan span =>
      exact ih { h with sound := Display.Session.step_sound h.sound (.setSpan span) } hframes
    | setPoints points =>
      exact ih { h with sound := Display.Session.step_sound h.sound (.setPoints points) } hframes

/-- What is shown of a channel encloses a window of the reduced frames. -/
theorem Follows.shown (h : s.Follows mode target channels past next) (hready : s.session.Ready)
    {budget : Nat} (hbudget : Display.minPoints ≤ budget) {g : Frame}
    (hshows : Display.Shows g budget s.session.depth s.session.past.tails) {channel : Nat}
    {shown : List Sample} (hshown : g.channel? channel = some shown) :
    channel < channels ∧ shown ≠ [] ∧ Encloses shown (Display.newest s.session.depth
      (past.flatMap fun f => decimate (f.samplesOf channel) mode target)) := by
  rw [hshows channel, Option.map_eq_some_iff] at hshown
  obtain ⟨tail, htail, rfl⟩ := hshown
  have hchannel : channel < channels :=
    Nat.lt_of_lt_of_le (List.getElem?_eq_some_iff.mp htail).1 h.few
  have hsignal := h.signal channel hchannel
  rw [htail, Option.getD_some] at hsignal
  have hlong : s.session.depth ≤ tail.length :=
    Nat.le_trans (Nat.min_le_right _ _) (Display.shortest_le_tail h.sound.keeps htail)
  have hlength : (Display.newest s.session.depth tail).length = min s.session.depth tail.length :=
    Display.length_newest
  have hpos := h.sound.depth_pos hready
  have hlimit := s.session.depth_lt
  have hencloses : Encloses (Display.reduce budget (Display.newest s.session.depth tail))
      (Display.newest s.session.depth tail) := Display.encloses_reduce hbudget (by omega)
  refine ⟨hchannel, ?_, hsignal ▸ hencloses⟩
  -- The window is not empty, and each of its samples lies between two that are shown.
  obtain ⟨x, hx⟩ := List.exists_mem_of_length_pos
    (l := Display.newest s.session.depth tail) (by omega)
  obtain ⟨y, hy, -⟩ := hencloses.below x hx
  exact List.ne_nil_of_mem hy

end Follows

/-- Whatever has been shown before: each value that is shown of a channel is one of its samples, and
what is shown spans all samples of every frame that is in the window as a whole. -/
theorem run_keeps_spikes (mode : Mode) (target points : Nat) (span : Float) (events : List Event)
    (f : Frame) (channels : UInt32) (hextremal : Extremal mode target)
    (hchannels : ∀ g ∈ frames events ++ [f], g.channels = channels)
    (hcount : ((frames events ++ [f]).map fun g => g.samplesPerChannel.toNat).sum < 2147483648)
    (hsteady : ((Decimator.new mode target).outputs (frames events ++ [f])).Pairwise Steady) :
    let s := (start mode target points span).run events
    let d := (s.step (.frame f)).session.display
    ∀ g ∈ (s.session.display.process (s.decimator.process [f]).made).made,
      ∀ channel shown, g.channel? channel = some shown →
        (∀ v ∈ shown, ∃ raw ∈ frames events ++ [f], v ∈ raw.samplesOf channel) ∧
        ∃ lo hi, Spans shown lo hi ∧
          ∀ before raw after, frames events ++ [f] = before ++ raw :: after →
            ((raw :: after).flatMap fun g => decimate (g.samplesOf channel) mode target).length ≤
              min d.window (Display.shortest d.history) →
            ∀ x ∈ raw.samplesOf channel, lo ≤ x ∧ x ≤ hi := by
  intro s d g hg channel shown hshown
  have hall : ∀ g ∈ frames events ++ [f], g.channels.toNat = channels.toNat ∧
      g.samplesPerChannel.toNat < 2147483648 := by
    intro g hmem
    refine ⟨by rw [hchannels g hmem], ?_⟩
    obtain ⟨before, after, heq⟩ := List.append_of_mem hmem
    rw [heq, List.map_append, List.sum_append, List.map_cons, List.sum_cons] at hcount
    omega
  have hlast := hall f (List.mem_append_right _ List.mem_cons_self)
  have hfollows : s.Follows mode target channels.toNat (frames events) [f] :=
    run_follows hextremal (start_follows points span hsteady)
      fun g hmem => hall g (List.mem_append_left _ hmem)
  have hnext := step_follows hextremal hfollows hlast.1 hlast.2
  have htotal : 2 * ((frames events).map fun g => g.samplesPerChannel.toNat).sum +
      (Display.Event.process [(s.decimator.decimateFrame f).1]).offered < UInt32.size := by
    have hoffered := offered_le s.decimator hlast.2
    have hsize : UInt32.size = 4294967296 := rfl
    rw [List.map_append, List.sum_append, List.map_singleton, List.sum_singleton] at hcount
    omega
  rcases hfollows.sound.process_cases _ [] htotal with
    ⟨hnone, -⟩ | ⟨g', hmade, hready, hwindow, hshows⟩
  · have hempty : g ∈ ([] : List Frame) := hnone ▸ hg
    exact absurd hempty List.not_mem_nil
  · have hmem : g ∈ [g'] := hmade ▸ hg
    obtain rfl := List.mem_singleton.mp hmem
    obtain ⟨hchannel, hne, hencloses⟩ :=
      hnext.shown hready (Nat.le_max_right _ _) hshows hshown
    have hblock : ∀ raw ∈ frames events ++ [f],
        Encloses (decimate (raw.samplesOf channel) mode target) (raw.samplesOf channel) := by
      intro raw hraw
      obtain ⟨hsame, hsmall⟩ := hall raw hraw
      have hlength := raw.length_samplesOf (hsame ▸ hchannel)
      have hlimit : indexLimit = 18446744073709551616 := rfl
      exact decimate_encloses hextremal (by omega)
    have hspans := spans_extremes hne
    refine ⟨fun v hv => Display.mem_source hblock hencloses hv, _, _, hspans, ?_⟩
    intro before raw after heq hinside x hx
    have hdepth : min d.window (Display.shortest d.history) = (s.step (.frame f)).session.depth :=
      congrArg (min · _) hwindow
    rw [hdepth] at hinside
    exact Display.spans_source hblock hencloses hspans heq hinside hx

/-- A spike in the first of two frames, with a budget of one pair. -/
theorem run_keeps_spikes_pair :
    let first : Frame := { channels := 1, samplesPerChannel := 8, rate := ⟨0x4030000000000000⟩
                           storage := .owned [0, 0, 9, 0, 0, 0, -7, 0], fits := rfl }
    let second : Frame := { channels := 1, samplesPerChannel := 8, rate := ⟨0x4030000000000000⟩
                            storage := .owned [1, 2, 3, 4, 5, 6, 7, 8], fits := rfl }
    let s := (start .minMax 2 3840 1.0).run [.frame first, .setPoints 2]
    ∃ g ∈ (s.session.display.process (s.decimator.process [second]).made).made,
      g.channel? 0 = some [-7, 9] ∧
        ∃ lo hi, Spans [-7, 9] lo hi ∧ ∀ x ∈ first.samplesOf 0, lo ≤ x ∧ x ≤ hi := by
  intro first second s
  obtain ⟨g, hg, hshown⟩ : ∃ g ∈ (s.session.display.process
      (s.decimator.process [second]).made).made, g.channel? 0 = some [-7, 9] := by
    decide +kernel
  have hkeeps := run_keeps_spikes .minMax 2 3840 1.0 [.frame first, .setPoints 2] second 1
    (.inr ⟨rfl, by decide⟩) (by decide +kernel) (by decide +kernel) (by decide +kernel)
  obtain ⟨-, lo, hi, hspans, hall⟩ := hkeeps g hg 0 _ hshown
  exact ⟨g, hg, hshown, lo, hi, hspans, hall [] first [second] rfl (by decide +kernel)⟩

end Scope

end Oscilloscope
