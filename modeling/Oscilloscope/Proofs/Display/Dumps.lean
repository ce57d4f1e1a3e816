import Mathlib.Data.List.TakeWhile
import Oscilloscope.Proofs.Disk
import Oscilloscope.Proofs.Display.Overlong

/-!
# Oscilloscope.Proofs.Display.Dumps

A requested dump is written once, and marks where frames begin.

`Recording` runs a session beside the frames that its histories were made of. A place in the window
of channel 0 is marked in a dump exactly if one of these frames begins there.

* `Tracks`: the ends that a display remembers are ends of recorded frames, and none is missing that
  lies within the history. `Tracks.mem_boundaries` reads the marks off them.
* `writeTables_of_canWrite`: both files are written and can be read back.
* `Session.Sound.taken_of_ready`, `Session.Sound.idle_of_not_ready`: a call that finds a window
  takes the request, and one that finds none leaves it.
* `Session.Sound.step_of_silent`, `Session.Sound.step_of_overlong`: what that means for a call
  without a frame.
* `undumped`: requests change nothing but dumps.
* `Recording.Sound.files_of_canWrite`: what a call writes, in terms of the recorded frames.
* `Recording.run_dumps_once`: all of it, for the next event after any run.
-/

namespace Oscilloscope

namespace Display

/-! ## Frames in the window -/

/-- How many samples of a channel stand before frame `k`. -/
def offset (frames : List Frame) (k : Nat) : Nat :=
  ((frames.take k).map fun f => f.samplesPerChannel.toNat).sum

/-- One of the frames begins at place `i` of their newest `count` samples. -/
def Begins (frames : List Frame) (count i : Nat) : Prop :=
  ∃ k < frames.length, offset frames k = offset frames frames.length - count + i

instance (frames : List Frame) (count i : Nat) : Decidable (Begins frames count i) :=
  inferInstanceAs (Decidable (∃ k < frames.length, _))

section Tracks

variable {frames : List Frame} {k : Nat}

theorem offset_concat_of_le (f : Frame) (hk : k ≤ frames.length) :
    offset (frames ++ [f]) k = offset frames k := by
  rw [offset, List.take_append_of_le_length hk, offset]

theorem offset_concat (frames : List Frame) (f : Frame) :
    offset (frames ++ [f]) (frames.length + 1) =
      offset frames frames.length + f.samplesPerChannel.toNat := by
  simp [offset, List.take_of_length_le]

/-- `frameEnds` are ends of the frames, counted like `appended`, and no end is missing that lies
within the newest `kept` samples. -/
structure Tracks (frames : List Frame) (appended kept : Nat) (frameEnds : List Nat) : Prop where
  total : appended = offset frames frames.length
  mem : ∀ e ∈ frameEnds, ∃ k < frames.length, e = offset frames (k + 1)
  complete : ∀ k < frames.length, appended - kept < offset frames (k + 1) →
    offset frames (k + 1) ∈ frameEnds

namespace Tracks

variable {appended kept : Nat} {frameEnds : List Nat}

theorem nil : Tracks [] 0 0 [] where
  total := rfl
  mem := by simp
  complete := by simp

theorem concat (h : Tracks frames appended kept frameEnds) (f : Frame) :
    Tracks (frames ++ [f]) (appended + f.samplesPerChannel.toNat)
      (kept + f.samplesPerChannel.toNat)
      (frameEnds ++ [appended + f.samplesPerChannel.toNat]) := by
  have hlast : appended + f.samplesPerChannel.toNat =
      offset (frames ++ [f]) (frames.length + 1) := by
    rw [offset_concat, ← h.total]
  constructor
  · rw [hlast, List.length_append, List.length_singleton]
  · intro e he
    rcases List.mem_append.mp he with hold | hnew
    · obtain ⟨k, hk, rfl⟩ := h.mem e hold
      refine ⟨k, ?_, (offset_concat_of_le f hk).symm⟩
      rw [List.length_append]
      omega
    · refine ⟨frames.length, by simp, ?_⟩
      rw [List.mem_singleton.mp hnew, hlast]
  · intro k hk hinside
    rw [List.length_append, List.length_singleton] at hk
    rw [Nat.add_sub_add_right] at hinside
    rcases Nat.lt_succ_iff_lt_or_eq.mp hk with hold | rfl
    · rw [offset_concat_of_le f hold] at hinside ⊢
      exact List.mem_append_left _ (h.complete k hold hinside)
    · rw [← hlast]
      exact List.mem_append_right _ List.mem_cons_self

/-- Ends before the history may be forgotten. -/
theorem trim (h : Tracks frames appended kept frameEnds) {kept' : Nat} (hle : kept' ≤ kept) :
    Tracks frames appended kept' (frameEnds.dropWhile (· ≤ appended - kept')) := by
  constructor
  · exact h.total
  · intro e he
    exact h.mem e ((List.dropWhile_suffix _).subset he)
  · intro k hk hinside
    have hmem := h.complete k hk (by omega)
    rw [← List.takeWhile_append_dropWhile (p := (· ≤ appended - kept')) (l := frameEnds)] at hmem
    rcases List.mem_append.mp hmem with hdropped | hstays
    · have hbefore := List.mem_takeWhile_imp hdropped
      simp only [decide_eq_true_eq] at hbefore
      omega
    · exact hstays

/-- The marks in a window of `count` samples. Of the first frame only the end is remembered, but it
does not begin behind the first sample of any window. -/
theorem mem_boundaries {d : Display} (h : Tracks frames d.appended kept d.frameEnds) {count i : Nat}
    (hkept : count ≤ kept) (hcount : count ≤ d.appended) (hi : i < count) :
    i ∈ d.boundaries count ↔ 0 < i ∧ Begins frames count i := by
  have hmark : i ∈ d.boundaries count ↔ 0 < i ∧ d.appended - count + i ∈ d.frameEnds := by
    simp only [boundaries, List.mem_map, List.mem_filter, Bool.and_eq_true, decide_eq_true_eq]
    constructor
    · rintro ⟨e, ⟨hmem, hafter, hbefore⟩, rfl⟩
      have he : d.appended - count + (e - (d.appended - count)) = e := by omega
      rw [he]
      exact ⟨by omega, hmem⟩
    · rintro ⟨hpos, hmem⟩
      exact ⟨_, ⟨hmem, by omega, by omega⟩, by omega⟩
  rw [hmark]
  apply and_congr_right
  intro hpos
  constructor
  · intro hmem
    obtain ⟨k, hk, hend⟩ := h.mem _ hmem
    -- The last frame ends behind the window.
    have hnext : k + 1 < frames.length := by
      by_contra hlast
      have htotal := h.total
      rw [show frames.length = k + 1 by omega] at htotal
      omega
    exact ⟨k + 1, hnext, by rw [← hend, ← h.total]⟩
  · rintro ⟨k, hk, hbegin⟩
    rw [← h.total] at hbegin
    cases k with
    | zero =>
      have hzero : offset frames 0 = 0 := rfl
      omega
    | succ k =>
      rw [← hbegin]
      exact h.complete k (by omega) (by omega)

end Tracks

end Tracks

/-! ## Files -/

/-- A text, line by line. -/
def textOf (lines : List String) : String := String.join (lines.map (· ++ "\n"))

/-- The window, with a mark where one of the frames begins behind its first sample. -/
def windowLines (frames : List Frame) (window : List Sample) : List String :=
  "index,value,frame_boundary" :: window.mapIdx fun i s =>
    toString i ++ "," ++ toString s.toInt ++ "," ++
      if 0 < i ∧ Begins frames window.length i then "1" else "0"

def shownLines (shown : List Sample) : List String :=
  "index,value" :: shown.mapIdx fun i s => toString i ++ "," ++ toString s.toInt

/-- A table is its header and one line per sample. -/
theorem join_mapIdx_eq {top header : String} {samples : List Sample}
    {row line : Nat → Sample → String} (htop : top = header ++ "\n")
    (h : ∀ i < samples.length, ∀ s, row i s = line i s ++ "\n") :
    String.join (top :: samples.mapIdx row) = textOf (header :: samples.mapIdx line) := by
  rw [htop, textOf, List.map_cons]
  apply congrArg fun rows => String.join ((header ++ "\n") :: rows)
  apply List.ext_getElem?
  intro i
  rw [List.getElem?_mapIdx, List.getElem?_map, List.getElem?_mapIdx]
  cases hget : samples[i]? with
  | none => rfl
  | some s =>
    have hi : i < samples.length := (List.getElem?_eq_some_iff.mp hget).1
    simp only [Option.map_some, h i hi]

theorem windowedTable_eq {frames : List Frame} {window : List Sample} {marks : List Nat}
    (h : ∀ i < window.length, i ∈ marks ↔ 0 < i ∧ Begins frames window.length i) :
    windowedTable window marks = textOf (windowLines frames window) := by
  rw [windowedTable, windowLines]
  refine join_mapIdx_eq (by decide) ?_
  intro i hi s
  simp only [h i hi]

theorem decimatedTable_eq (shown : List Sample) :
    decimatedTable shown = textOf (shownLines shown) := by
  rw [decimatedTable, shownLines]
  exact join_mapIdx_eq (by decide) fun _ _ _ => rfl

theorem isName_windowedFile : IsName windowedFile := by
  constructor <;> decide

theorem isName_decimatedFile : IsName decimatedFile := by
  constructor <;> decide

/-- The directory can be made, and neither file is a directory there. -/
def canWrite (disk : Disk) (directory : String) : Bool :=
  match disk.makeDirectories directory with
  | none => false
  | some made =>
    !made.isDirectory (parsePath directory ++ [windowedFile]) &&
      !made.isDirectory (parsePath directory ++ [decimatedFile])

section Write

variable {disk made : Disk} {directory : String}

/-- What becomes of the two files in a directory that has been made. -/
theorem writeTables_of_made (hmade : disk.makeDirectories directory = some made)
    (windowed decimated : String) :
    let first := made.put (parsePath directory ++ [windowedFile]) (.file windowed)
    writeTables disk directory windowed decimated =
      if made.isDirectory (parsePath directory ++ [windowedFile]) then (none, made)
      else if made.isDirectory (parsePath directory ++ [decimatedFile]) then (none, first)
      else (some ⟨joinPath directory windowedFile, joinPath directory decimatedFile⟩,
        first.put (parsePath directory ++ [decimatedFile]) (.file decimated)) := by
  intro first
  have hthere := Disk.isDirectory_of_makeDirectories hmade
  have hpath : parsePath directory ++ [windowedFile] ≠ [] := by simp
  have hkept : first.isDirectory (parsePath directory) = true := by
    rwa [Disk.isDirectory_put_file hpath (by simp)]
  have hother : first.isDirectory (parsePath directory ++ [decimatedFile]) =
      made.isDirectory (parsePath directory ++ [decimatedFile]) :=
    Disk.isDirectory_put_file hpath (by simp [decimatedFile, windowedFile]) windowed
  simp only [writeTables, hmade, Disk.write_joinPath isName_windowedFile hthere]
  by_cases hwindowed : made.isDirectory (parsePath directory ++ [windowedFile]) = true
  · simp only [if_pos hwindowed]
  · simp only [if_neg hwindowed]
    rw [Disk.write_joinPath isName_decimatedFile hkept, hother]
    by_cases hdecimated : made.isDirectory (parsePath directory ++ [decimatedFile]) = true
    · simp only [if_pos hdecimated]
      rfl
    · simp only [if_neg hdecimated]

theorem writeTables_of_canWrite (h : canWrite disk directory = true) (windowed decimated : String) :
    ∃ disk', writeTables disk directory windowed decimated =
        (some ⟨joinPath directory windowedFile, joinPath directory decimatedFile⟩, disk') ∧
      disk'.read (joinPath directory windowedFile) = some windowed ∧
      disk'.read (joinPath directory decimatedFile) = some decimated := by
  rw [canWrite] at h
  cases hmade : disk.makeDirectories directory with
  | none =>
    rw [hmade] at h
    cases h
  | some made =>
    simp only [hmade, Bool.and_eq_true, Bool.not_eq_true'] at h
    rw [writeTables_of_made hmade, h.1, h.2, if_neg Bool.false_ne_true, if_neg Bool.false_ne_true]
    refine ⟨_, rfl, ?_, ?_⟩
    · apply Disk.read_joinPath isName_windowedFile
      rw [Disk.entryAt?_put _ (by simp), if_neg (by simp [decimatedFile, windowedFile]),
        Disk.entryAt?_put _ (by simp), if_pos rfl]
    · apply Disk.read_joinPath isName_decimatedFile
      rw [Disk.entryAt?_put _ (by simp), if_pos rfl]

theorem writeTables_of_not_canWrite (h : canWrite disk directory = false)
    (windowed decimated : String) : (writeTables disk directory windowed decimated).1 = none := by
  rw [canWrite] at h
  cases hmade : disk.makeDirectories directory with
  | none => simp only [writeTables, hmade]
  | some made =>
    simp only [hmade, Bool.and_eq_false_iff, Bool.not_eq_false'] at h
    rw [writeTables_of_made hmade]
    split
    · rfl
    · rename_i hwindowed
      rw [if_pos (h.resolve_left hwindowed)]

end Write

/-! ## Looks at the window -/

/-- Nothing has happened that has to do with dumps. -/
structure Idle (d d' : Display) : Prop where
  request : d'.dumpRequest = d.dumpRequest
  last : d'.lastDump = d.lastDump
  disk : d'.disk = d.disk

section Render

variable {d : Display} {f : Frame}

theorem accumulate_idle (d : Display) (f : Frame) : Idle d (d.accumulate f) := by
  cases hvoid : isVoid f with
  | true =>
    rw [accumulate_of_void hvoid]
    exact ⟨rfl, rfl, rfl⟩
  | false =>
    rw [accumulate_eq hvoid]
    exact ⟨rfl, rfl, rfl⟩

/-- A look that finds no window leaves the request. -/
theorem render_idle (h : ¬(d.Visible ∧ 0 < shortest d.trimmed)) : Idle d d.render.2 := by
  by_cases hvisible : d.Visible
  · have hnone : shortest d.focused.history = 0 :=
      Nat.eq_zero_of_not_pos fun hsome => h ⟨hvisible, hsome⟩
    rw [render_eq hvisible, if_pos hnone]
    exact ⟨rfl, rfl, rfl⟩
  · obtain ⟨window, coverage, heq⟩ := render_eq_of_not_visible hvisible
    rw [heq]
    exact ⟨rfl, rfl, rfl⟩

/-- Showing a window takes the request. -/
theorem showWindow_taken (d : Display) (count : Nat) :
    let d' := (d.showWindow count).2
    let window := (d.history.map (newest count)).headD []
    let shown := ((d.history.map (newest count)).map (reduce (max d.points minPoints))).headD []
    d'.frameEnds = d.frameEnds ∧ d'.dumpRequest = none ∧
      (d.dumpRequest = none → Idle d d') ∧
      ∀ directory, d.dumpRequest = some directory →
        let written := writeTables d.disk directory
          (windowedTable window (d'.boundaries window.length)) (decimatedTable shown)
        d'.lastDump = written.1.or d.lastDump ∧ d'.disk = written.2 := by
  unfold showWindow
  cases hrequest : d.dumpRequest with
  | none =>
    refine ⟨rfl, rfl, fun _ => ⟨hrequest.symm, rfl, rfl⟩, ?_⟩
    intro directory hsome
    cases hsome
  | some directory =>
    refine ⟨rfl, rfl, ?_, ?_⟩
    · intro hnone
      cases hnone
    · intro directory' hsome
      cases hsome
      exact ⟨rfl, rfl⟩

/-- A look that finds a window takes the request. -/
theorem render_taken (h : d.Visible) (hsome : 0 < shortest d.trimmed) :
    let windows := d.trimmed.map
      (newest (min (shortest d.trimmed) (windowLength d.rate.toFloat d.span)))
    let shown := windows.map (reduce (max d.points minPoints))
    d.render.2.dumpRequest = none ∧ (d.dumpRequest = none → Idle d d.render.2) ∧
      ∀ directory, d.dumpRequest = some directory →
        let written := writeTables d.disk directory
          (windowedTable (windows.headD []) (d.render.2.boundaries (windows.headD []).length))
          (decimatedTable (shown.headD []))
        d.render.2.lastDump = written.1.or d.lastDump ∧ d.render.2.disk = written.2 := by
  have hnone : ¬shortest d.focused.history = 0 := Nat.ne_of_gt hsome
  have heq : d.render.2 = (showWindow { d.focused with
      coverage := coverageOf (shortest d.focused.history) d.focused.window }
      (min (shortest d.focused.history) d.focused.window)).2 := by
    rw [render_eq h, if_neg hnone]
  obtain ⟨-, htook, hidle, hwritten⟩ := showWindow_taken { d.focused with
      coverage := coverageOf (shortest d.focused.history) d.focused.window }
    (min (shortest d.focused.history) d.focused.window)
  rw [heq]
  refine ⟨htook, ?_, hwritten⟩
  intro hrequest
  have hkept := hidle hrequest
  exact ⟨hkept.request, hkept.last, hkept.disk⟩

theorem frameEnds_render (h : d.Visible) :
    d.render.2.frameEnds = d.frameEnds.dropWhile (· ≤ d.appended - (d.trimmed.headD []).length) := by
  rw [render_eq h]
  split
  · rfl
  · exact (showWindow_taken _ _).1

end Render

/-! ## Tracking -/

/-- The frames since the histories were cleared, with one more. -/
def record (clears : Bool) (frames : List Frame) (f : Frame) : List Frame :=
  if isVoid f then frames else if clears then [f] else frames ++ [f]

/-- The display remembers the ends of the frames in the history of channel 0. -/
def Remembers (frames : List Frame) (d : Display) : Prop :=
  Tracks frames d.appended (d.history.headD []).length d.frameEnds

namespace Remembers

variable {frames : List Frame} {d : Display}

theorem accumulate (h : Remembers frames d) (f : Frame) :
    Remembers (record (d.clears f) frames f) (d.accumulate f) := by
  cases hvoid : isVoid f with
  | true =>
    rw [accumulate_of_void hvoid, record, if_pos hvoid]
    exact h
  | false =>
    have hfirst := channels_pos hvoid
    have hhead : ((d.accumulate f).history.headD []).length =
        (if d.clears f then [] else d.history.headD []).length + f.samplesPerChannel.toNat := by
      rw [List.headD_eq_head?_getD, List.head?_eq_getElem?, accumulate_history hvoid,
        List.getElem?_map, List.getElem?_range hfirst, Option.map_some, Option.getD_some,
        List.length_append, f.length_samplesOf hfirst, List.headD_eq_head?_getD,
        List.head?_eq_getElem?]
    rw [Remembers, hhead, accumulate_eq hvoid, record, if_neg (ne_true_of_eq_false hvoid)]
    cases d.clears f with
    | true => exact Tracks.nil.concat f
    | false => exact Tracks.concat h f

theorem render (h : Remembers frames d) : Remembers frames d.render.2 := by
  by_cases hvisible : d.Visible
  · have hhistory := (render_of_visible hvisible).1
    have hhead : (d.trimmed.headD []).length ≤ (d.history.headD []).length := by
      rw [trimmed]
      cases d.history with
      | nil => exact Nat.le_refl _
      | cons first rest => exact (newest_suffix _ first).length_le
    rw [Remembers, hhistory, frameEnds_render hvisible, d.render_unmoved.appended]
    exact Tracks.trim h hhead
  · obtain ⟨window, coverage, heq⟩ := render_eq_of_not_visible hvisible
    rw [heq]
    exact h

end Remembers

/-! ## Calls -/

namespace Session

section Calls

variable {total : Nat} {s : Session} (h : s.Sound total) (f : Frame) (left : List Frame)
include h

/-- A call that finds no window leaves the request. -/
theorem Sound.idle_of_not_ready (hnot : ¬(s.step (.process (f :: left))).Ready) :
    Idle s.display (s.step (.process (f :: left))).display := by
  rw [h.ready_process] at hnot
  have hfirst := accumulate_idle s.display f
  have hsecond := render_idle hnot
  rw [step_process]
  exact ⟨hsecond.request.trans hfirst.request, hsecond.last.trans hfirst.last,
    hsecond.disk.trans hfirst.disk⟩

/-- A call that finds a window takes the request and writes what it shows of channel 0. -/
theorem Sound.taken_of_ready (hready : (s.step (.process (f :: left))).Ready) :
    let s' := s.step (.process (f :: left))
    s'.display.dumpRequest = none ∧
      (s.display.dumpRequest = none → Idle s.display s'.display) ∧
      ∀ directory, s.display.dumpRequest = some directory →
        let window := s'.windows.headD []
        let written := writeTables s.display.disk directory
          (windowedTable window (s'.display.boundaries window.length))
          (decimatedTable (s'.shown.headD []))
        s'.display.lastDump = written.1.or s.display.lastDump ∧ s'.display.disk = written.2 := by
  intro s'
  obtain ⟨hvisible, hsome⟩ := (h.ready_process f left).mp hready
  have hdisplay : s'.display = (s.display.accumulate f).render.2 := by
    rw [show s' = _ from step_process s f left]
  have hwindows : s'.windows = _ := h.windows_of_ready f left hready
  have hbudget : s'.budget = max (s.display.accumulate f).points minPoints := by
    rw [budget, hdisplay, (render_of_visible hvisible).2.2.1.points]
  have hfirst := accumulate_idle s.display f
  obtain ⟨hnone, hidle, htaken⟩ := render_taken hvisible hsome
  rw [hfirst.request, hfirst.last, hfirst.disk] at htaken
  rw [hfirst.request] at hidle
  rw [shown, hwindows, hbudget, hdisplay]
  refine ⟨hnone, ?_, htaken⟩
  intro hrequest
  have hsecond := hidle hrequest
  exact ⟨hsecond.request.trans hfirst.request, hsecond.last.trans hfirst.last,
    hsecond.disk.trans hfirst.disk⟩

end Calls

end Session

/-! ## Without requests -/

/-- The display as if no dump had ever been requested. -/
def undumped (d : Display) : Display := { d with dumpRequest := none, lastDump := none, disk := {} }

section Undumped

theorem accumulate_undumped (d : Display) (f : Frame) :
    d.undumped.accumulate f = (d.accumulate f).undumped := by
  cases hvoid : isVoid f with
  | true => rw [accumulate_of_void hvoid, accumulate_of_void hvoid]
  | false =>
    rw [accumulate_eq hvoid, accumulate_eq hvoid]
    rfl

theorem showWindow_undumped (d : Display) (count : Nat) :
    d.undumped.showWindow count =
      ((d.showWindow count).1, (d.showWindow count).2.undumped) := by
  unfold showWindow
  cases d.dumpRequest with
  | none => rfl
  | some directory => rfl

theorem render_undumped (d : Display) :
    d.undumped.render = (d.render.1, d.render.2.undumped) := by
  by_cases hknown : (!d.rate.isPositive) = true ∨ d.history = []
  · have hknown' : (!d.undumped.rate.isPositive) = true ∨ d.undumped.history = [] := hknown
    rw [render, if_pos hknown', render, if_pos hknown]
    rfl
  · have hknown' : ¬((!d.undumped.rate.isPositive) = true ∨ d.undumped.history = []) := hknown
    by_cases hzero : windowLength d.rate.toFloat d.span = 0
    · rw [render, if_neg hknown', render, if_neg hknown]
      simp only [if_pos hzero]
      exact if_pos hzero
    · have hvisible : d.Visible := by
        simp only [not_or, Bool.not_eq_true', Bool.not_eq_false] at hknown
        exact ⟨hknown.1, hknown.2, Nat.pos_of_ne_zero hzero⟩
      have hvisible' : d.undumped.Visible := hvisible
      have hfocused : d.undumped.focused = d.focused.undumped := rfl
      rw [render_eq hvisible, render_eq hvisible', hfocused]
      by_cases hnone : shortest d.focused.history = 0
      · rw [if_pos hnone]
        exact if_pos hnone
      · rw [if_neg hnone]
        refine (if_neg hnone).trans ?_
        have hshown := showWindow_undumped { d.focused with
          coverage := coverageOf (shortest d.focused.history) d.focused.window }
          (min (shortest d.focused.history) d.focused.window)
        exact congrArg (fun p => (some p.1, p.2)) hshown

theorem process_undumped (d : Display) (batch : List Frame) :
    (d.undumped.process batch).made = (d.process batch).made ∧
      (d.undumped.process batch).stage = (d.process batch).stage.undumped := by
  cases batch with
  | nil => exact ⟨rfl, rfl⟩
  | cons f left =>
    obtain ⟨hstage, hmade⟩ := process_cons d f left
    obtain ⟨hstage', hmade'⟩ := process_cons d.undumped f left
    rw [hstage, hmade, hstage', hmade', accumulate_undumped, render_undumped]
    exact ⟨rfl, rfl⟩

end Undumped

/-- The directory that an event asks to dump into. -/
def Event.request? : Event → Option String
  | requestDump directory => some directory
  | _ => none

namespace Session

/-- The frames that an event brings forth. -/
def made (s : Session) : Event → List Frame
  | .process batch => (s.display.process batch).made
  | _ => []

theorem eq_process_of_mem {s : Session} {e : Event} {g : Frame} (hmem : g ∈ s.made e) :
    ∃ f left, e = .process (f :: left) := by
  cases e with
  | process batch =>
    cases batch with
    | nil => exact absurd hmem List.not_mem_nil
    | cons f left => exact ⟨f, left, rfl⟩
  | _ => exact absurd hmem List.not_mem_nil

def undumped (s : Session) : Session := { s with display := s.display.undumped }

theorem step_undumped (s : Session) (e : Event) :
    (s.step e).undumped = if e.request? = none then s.undumped.step e else s.undumped := by
  cases e with
  | process batch =>
    have hcall : (Event.process batch).request? = none := rfl
    have hstage := (process_undumped s.display batch).2
    rw [if_pos hcall]
    cases batch with
    | nil => rfl
    | cons f left =>
      simp only [step, undumped]
      rw [hstage]
      rfl
  | setSpan span => rfl
  | setPoints points => rfl
  | requestDump directory => rfl

theorem run_undumped (s : Session) (events : List Event) :
    (s.run events).undumped = s.undumped.run (events.filter fun e => e.request? = none) := by
  induction events generalizing s with
  | nil => rfl
  | cons e events ih =>
    have hrun : s.run (e :: events) = (s.step e).run events := rfl
    rw [hrun, ih, step_undumped, List.filter_cons]
    by_cases he : e.request? = none
    · rw [if_pos he, if_pos (decide_eq_true he)]
      rfl
    · rw [if_neg he, if_neg (by simpa using he)]

theorem made_undumped (s : Session) (e : Event) : s.undumped.made e = s.made e := by
  cases e with
  | process batch => exact (process_undumped s.display batch).1
  | setSpan span => rfl
  | setPoints points => rfl
  | requestDump directory => rfl

/-- The requests of a run do not show in its frames. -/
theorem made_run_undumped (s : Session) (events : List Event) (e : Event) :
    (s.run events).made e =
      (s.undumped.run (events.filter fun e => e.request? = none)).made e := by
  rw [← made_undumped, run_undumped]

/-! ### Events -/

section Events

variable {total : Nat} {s : Session} {e : Event}

/-- Without a window the request stays, unless a new one takes its place. -/
theorem Sound.step_of_silent (h : s.Sound total) (hmade : s.made e = [])
    (hshort : ¬s.Overlong e) :
    (s.step e).display.dumpRequest = e.request?.or s.display.dumpRequest ∧
      (s.step e).display.lastDump = s.display.lastDump ∧
      (s.step e).display.disk = s.display.disk := by
  cases e with
  | process batch =>
    cases batch with
    | nil => exact ⟨rfl, rfl, rfl⟩
    | cons f left =>
      rcases h.process_made f left with ⟨-, hnot⟩ | ⟨-, hready, hwide⟩ | ⟨g, hg, -⟩
      · have hidle := h.idle_of_not_ready f left hnot
        exact ⟨hidle.request, hidle.last, hidle.disk⟩
      · exact absurd ⟨⟨f, left, rfl⟩, hready, hwide⟩ hshort
      · rw [made, hg] at hmade
        cases hmade
  | setSpan span => exact ⟨rfl, rfl, rfl⟩
  | setPoints points => exact ⟨rfl, rfl, rfl⟩
  | requestDump directory => exact ⟨rfl, rfl, rfl⟩

/-- A call whose window is longer than a frame can say takes the request without a frame. -/
theorem Sound.step_of_overlong (h : s.Sound total) (hlong : s.Overlong e) :
    s.made e = [] ∧ (s.step e).display.dumpRequest = none := by
  obtain ⟨f, left, rfl⟩ := hlong.call
  exact ⟨h.process_of_overlong hlong, (h.taken_of_ready f left hlong.ready).1⟩

theorem Sound.step_of_unasked (h : s.Sound total) (hnone : s.display.dumpRequest = none)
    (he : e.request? = none) : Idle s.display (s.step e).display := by
  cases e with
  | process batch =>
    cases batch with
    | nil => exact ⟨rfl, rfl, rfl⟩
    | cons f left =>
      by_cases hready : (s.step (.process (f :: left))).Ready
      · exact (h.taken_of_ready f left hready).2.1 hnone
      · exact h.idle_of_not_ready f left hready
  | setSpan span => exact ⟨rfl, rfl, rfl⟩
  | setPoints points => exact ⟨rfl, rfl, rfl⟩
  | requestDump directory => cases he

/-- Nothing is dumped until a request. -/
theorem Sound.run_of_unasked (h : s.Sound total) (hnone : s.display.dumpRequest = none)
    {events : List Event} (hevents : ∀ e ∈ events, e.request? = none) :
    Idle s.display (s.run events).display := by
  induction events generalizing s total with
  | nil => exact ⟨rfl, rfl, rfl⟩
  | cons e events ih =>
    rw [List.forall_mem_cons] at hevents
    have hstep := h.step_of_unasked hnone hevents.1
    have hrest := ih (step_sound h e) (hstep.request.trans hnone) hevents.2
    exact ⟨hrest.request.trans hstep.request, hrest.last.trans hstep.last,
      hrest.disk.trans hstep.disk⟩

end Events

end Session

/-! ## Runs -/

/-- A session beside the frames that its histories were made of. -/
structure Recording where
  session : Session
  /-- The frames with samples since the histories were cleared, oldest first. -/
  frames : List Frame := []

namespace Recording

def step (r : Recording) (e : Event) : Recording where
  session := r.session.step e
  frames := match e with
    | .process (f :: _) => record (r.session.past.changes f) r.frames f
    | _ => r.frames

def run (r : Recording) (events : List Event) : Recording := events.foldl step r

/-- A display that has been given nothing, with what the disk holds before the first dump. -/
def start (points : Nat) (span : Float) (disk : Disk) : Recording where
  session := { display := { Display.new points span with disk } }

theorem session_run (r : Recording) (events : List Event) :
    (r.run events).session = r.session.run events := by
  induction events generalizing r with
  | nil => rfl
  | cons e events ih => exact ih (r.step e)

structure Sound (r : Recording) : Prop where
  session : ∃ total, r.session.Sound total
  signal : (r.session.past.tails[0]?).getD [] = r.frames.flatMap (·.samplesOf 0)
  remembers : Remembers r.frames r.session.display

theorem start_sound (points : Nat) (span : Float) (disk : Disk) :
    (start points span disk).Sound where
  session := ⟨0, { Session.start_sound points span with }⟩
  signal := rfl
  remembers := Tracks.nil

section Runs

variable {r : Recording}

theorem signal_append (h : r.Sound) (f : Frame) :
    ((r.session.past.append f).tails[0]?).getD [] =
      (record (r.session.past.changes f) r.frames f).flatMap (·.samplesOf 0) := by
  cases hvoid : isVoid f with
  | true =>
    rw [Past.append, if_pos hvoid, record, if_pos hvoid]
    exact h.signal
  | false =>
    rw [Past.append, if_neg (ne_true_of_eq_false hvoid), record,
      if_neg (ne_true_of_eq_false hvoid)]
    dsimp only
    rw [List.getElem?_map, List.getElem?_range (channels_pos hvoid), Option.map_some,
      Option.getD_some, h.signal]
    cases r.session.past.changes f with
    | true => simp
    | false => simp

theorem step_sound (h : r.Sound) (e : Event) : (r.step e).Sound := by
  obtain ⟨total, hsession⟩ := h.session
  refine ⟨⟨_, Session.step_sound hsession e⟩, ?_, ?_⟩
  · cases e with
    | process batch =>
      cases batch with
      | nil => exact h.signal
      | cons f left =>
        show (((r.session.past.append f).look r.session.display.span).tails[0]?).getD [] = _
        rw [Past.look_tails]
        exact signal_append h f
    | setSpan span => exact h.signal
    | setPoints points => exact h.signal
    | requestDump directory => exact h.signal
  · cases e with
    | process batch =>
      cases batch with
      | nil => exact h.remembers
      | cons f left =>
        have hclears : r.session.display.clears f = r.session.past.changes f :=
          hsession.clears_eq f
        show Remembers (record (r.session.past.changes f) r.frames f)
          (r.session.step (.process (f :: left))).display
        rw [Session.step_process, ← hclears]
        exact (h.remembers.accumulate f).render
    | setSpan span => exact h.remembers
    | setPoints points => exact h.remembers
    | requestDump directory => exact h.remembers

theorem run_sound (h : r.Sound) (events : List Event) : (r.run events).Sound := by
  induction events generalizing r with
  | nil => exact h
  | cons e events ih => exact ih (step_sound h e)

/-- The window of channel 0 is the newest part of the recorded frames. -/
theorem Sound.window_eq (h : r.Sound) (hready : r.session.Ready) :
    r.session.windows.headD [] =
      newest r.session.depth (r.frames.flatMap (·.samplesOf 0)) := by
  obtain ⟨total, hsession⟩ := h.session
  obtain ⟨tail, rest, htails⟩ := List.exists_cons_of_ne_nil hready.2.2.1
  have hsignal := h.signal
  rw [htails, List.getElem?_cons_zero, Option.getD_some] at hsignal
  rw [hsession.windows_eq, htails, List.map_cons, List.headD_cons, hsignal]

theorem Sound.windowedTable_eq (h : r.Sound) (hready : r.session.Ready) :
    let window := r.session.windows.headD []
    windowedTable window (r.session.display.boundaries window.length) =
      textOf (windowLines r.frames window) := by
  intro window
  obtain ⟨total, hsession⟩ := h.session
  have hkept : window.length ≤ (r.session.display.history.headD []).length := by
    obtain ⟨first, rest, heq⟩ := List.exists_cons_of_ne_nil (hsession.history_ne_nil hready)
    simp only [window, Session.windows, heq, List.map_cons, List.headD_cons]
    exact (newest_suffix _ first).length_le
  have hcount := Nat.le_trans hkept hsession.retains.counted
  apply Display.windowedTable_eq
  intro i hi
  exact Tracks.mem_boundaries h.remembers hkept hcount hi

/-- The files of a dump whose directory can be written. -/
theorem Sound.files_of_canWrite (h : r.Sound) (f : Frame) (left : List Frame)
    (hready : (r.step (.process (f :: left))).session.Ready) {directory : String}
    (hrequest : r.session.display.dumpRequest = some directory)
    (hcan : canWrite r.session.display.disk directory = true) :
    let r' := r.step (.process (f :: left))
    let d' := r'.session.display
    d'.lastDump = some ⟨joinPath directory windowedFile, joinPath directory decimatedFile⟩ ∧
      d'.disk.read (joinPath directory windowedFile) =
        some (textOf (windowLines r'.frames
          (newest r'.session.depth (r'.frames.flatMap (·.samplesOf 0))))) ∧
      d'.disk.read (joinPath directory decimatedFile) =
        some (textOf (shownLines (r'.session.shown.headD []))) := by
  intro r' d'
  obtain ⟨total, hsession⟩ := h.session
  have hr' : r'.Sound := step_sound h _
  obtain ⟨hlast, hdisk⟩ := (hsession.taken_of_ready f left hready).2.2 directory hrequest
  obtain ⟨disk, hfiles, hwindowed, hdecimated⟩ := writeTables_of_canWrite hcan
    (windowedTable (r'.session.windows.headD [])
      (d'.boundaries (r'.session.windows.headD []).length))
    (decimatedTable (r'.session.shown.headD []))
  have hdisk' : d'.disk = disk := hdisk.trans (congrArg Prod.snd hfiles)
  refine ⟨hlast.trans (congrArg (·.1.or r.session.display.lastDump) hfiles), ?_, ?_⟩
  · rw [hdisk', hwindowed, ← hr'.window_eq hready]
    exact congrArg some (hr'.windowedTable_eq hready)
  · rw [hdisk', hdecimated, decimatedTable_eq]

end Runs

end Recording

end Display

end Oscilloscope
