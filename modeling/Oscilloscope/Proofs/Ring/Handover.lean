import Mathlib.Data.List.Induction
import Oscilloscope.Proofs.Ring.Delivery

/-!
# Oscilloscope.Proofs.Ring.Handover

The end of a stream, when the two ends of a link share nothing but single accesses to the rings.

A feeder writes ring after ring and block after block, and then closes ring after ring. A read tests
ring after ring for the closed mark, then asks ring after ring for its fill level, and then empties
ring after ring. `Handover` lets the accesses of the two come in any order.

* `Handover.read_eq_steps`: a read that nobody disturbs is `Link.read`.
* `Handover.Sound`: what every access preserves, as long as no ring overflows. The marks are tested
  before the levels are read, and set after the last write. So a reader that has seen all of them
  knows that the levels it reads are final, and that they are equal.
* `Handover.run_returns_all`: the end of the stream is reported after the last sample only.
-/

namespace Oscilloscope

namespace Link

open History (blocks returned)

/-! ## The feeder -/

/-- One access of the feeder. -/
inductive Write where
  | push (b : Buffer) (channel : Nat)
  | close (channel : Nat)

namespace Write

def isPush : Write → Bool
  | push _ _ => true
  | close _ => false

/-- What an access offers to the ring of a channel. -/
def samplesOf (channel : Nat) : Write → List Sample
  | push b target => if target = channel then b.samplesOf channel else []
  | close _ => []

end Write

/-- The accesses of a feeder with the blocks `fed`, to the end. -/
def script (channels : Nat) (fed : List Buffer) : List Write :=
  fed.flatMap (fun b => (List.range channels).map (.push b)) ++ (List.range channels).map .close

/-- What some accesses offer to the ring of a channel. -/
def offered (writes : List Write) (channel : Nat) : List Sample :=
  writes.flatMap (Write.samplesOf channel)

/-- All samples of a channel in some blocks. -/
def fedSamples (fed : List Buffer) (channel : Nat) : List Sample :=
  fed.flatMap (·.samplesOf channel)

section Script

variable {channels channel : Nat} {fed : List Buffer} {writes before later : List Write}

@[simp] theorem offered_nil : offered [] channel = [] := rfl

@[simp] theorem offered_append :
    offered (before ++ later) channel = offered before channel ++ offered later channel := by
  simp [offered]

theorem offered_of_no_push (h : ∀ w ∈ writes, w.isPush = false) : offered writes channel = [] := by
  rw [offered, List.flatMap_eq_nil_iff]
  intro w hw
  cases w with
  | push b target => cases h _ hw
  | close target => rfl

theorem offered_block (b : Buffer) (hlt : channel < channels) :
    offered ((List.range channels).map (.push b)) channel = b.samplesOf channel := by
  induction channels with
  | zero => omega
  | succ n ih =>
    rw [List.range_succ, List.map_append, offered_append]
    by_cases hn : channel < n
    · rw [ih hn]
      simp [offered, Write.samplesOf, Nat.ne_of_gt hn]
    · obtain rfl : channel = n := by omega
      have hnone : offered ((List.range channel).map (.push b)) channel = [] := by
        rw [offered, List.flatMap_eq_nil_iff]
        intro w hw
        obtain ⟨i, hi, rfl⟩ := List.mem_map.mp hw
        simp [Write.samplesOf, Nat.ne_of_lt (List.mem_range.mp hi)]
      rw [hnone]
      simp [offered, Write.samplesOf]

theorem offered_script (hlt : channel < channels) :
    offered (script channels fed) channel = fedSamples fed channel := by
  have hclose : offered ((List.range channels).map .close) channel = [] := by
    apply offered_of_no_push
    simp [Write.isPush]
  rw [script, offered_append, hclose, List.append_nil]
  induction fed with
  | nil => rfl
  | cons b fed ih =>
    rw [List.flatMap_cons, offered_append, offered_block b hlt, ih]
    rfl

/-- After the first close there are only closes. -/
theorem no_push_of_close (h : before ++ .close channel :: later = script channels fed) :
    ∀ w ∈ later, w.isPush = false := by
  have horder : (script channels fed).Pairwise
      fun w later => w.isPush = false → later.isPush = false := by
    rw [script, List.pairwise_append]
    refine ⟨?_, ?_, ?_⟩
    · apply List.pairwise_of_forall_mem_list
      intro w hw later _ hclose
      obtain ⟨b, -, hb⟩ := List.mem_flatMap.mp hw
      obtain ⟨i, -, rfl⟩ := List.mem_map.mp hb
      cases hclose
    · apply List.pairwise_of_forall_mem_list
      intro w _ later hlater _
      obtain ⟨i, -, rfl⟩ := List.mem_map.mp hlater
      rfl
    · intro w _ later hlater _
      obtain ⟨i, -, rfl⟩ := List.mem_map.mp hlater
      rfl
  rw [← h, List.pairwise_append] at horder
  intro w hw
  exact (List.pairwise_cons.mp horder.2.1).1 w hw rfl

theorem mem_script_push {b : Buffer} (h : .push b channel ∈ script channels fed) :
    b ∈ fed ∧ channel < channels := by
  rcases List.mem_append.mp h with h | h
  · obtain ⟨b', hb, h⟩ := List.mem_flatMap.mp h
    obtain ⟨i, hi, h⟩ := List.mem_map.mp h
    cases h
    exact ⟨hb, List.mem_range.mp hi⟩
  · obtain ⟨i, -, h⟩ := List.mem_map.mp h
    cases h

end Script

/-! ## The reader -/

/-- Where a read stands. -/
inductive Reading where
  /-- The rings before `channel` have been found closed. -/
  | testing (channel : Nat)
  /-- Whether all rings were closed, and the fill levels read so far. -/
  | measuring (closed : Bool) (levels : List Nat)
  /-- What has been taken so far, `count` samples from each ring. -/
  | taking (count : Nat) (parts : List (List Sample))

/-- A link in use by two parties. -/
structure Handover where
  link : Link
  /-- What the feeder is still going to do. -/
  pending : List Write
  reading : Reading := .testing 0
  /-- What the reads answered, in order. -/
  results : List (Except ReadError Buffer) := []
  /-- Whether some ring had no room for all that was offered to it. -/
  overflowed : Bool := false

inductive Party where
  | feeder
  | reader

namespace Handover

/-- The next access of the feeder. -/
def feed (h : Handover) : Handover :=
  match h.pending with
  | [] => h
  | .push b channel :: rest =>
    { h with
      link := h.link.feedLane b channel
      pending := rest
      overflowed := h.overflowed || decide (h.link.accepts b channel < b.samplesPerChannel.toNat) }
  | .close channel :: rest => { h with link := h.link.closeLane channel, pending := rest }

/-- The end of a read that took `count` samples from every ring, or failed. -/
def finish (h : Handover) (count : Nat) : Except ReadError (List Sample) → Handover
  | .error e => { h with reading := .testing 0, results := h.results ++ [.error e] }
  | .ok samples =>
    { h with
      link := { h.link with nextSequence := h.link.nextSequence + 1 }
      reading := .testing 0
      results := h.results ++ [.ok
        { sequence := h.link.nextSequence, channels := UInt32.ofNat h.link.lanes.length,
          samplesPerChannel := UInt32.ofNat count, samples }] }

/-- The next access of the reader. Behind the last ring it decides how to go on. -/
def advance (h : Handover) : Handover :=
  match h.reading with
  | .testing channel =>
    match h.link.lanes[channel]? with
    | none => { h with reading := .measuring true [] }
    | some lane =>
      if lane.ring.closed then { h with reading := .testing (channel + 1) }
      else { h with reading := .measuring false [] }
  | .measuring closed levels =>
    match h.link.lanes[levels.length]? with
    | some lane => { h with reading := .measuring closed (levels ++ [lane.ring.length]) }
    | none =>
      match plan h.link.blockLength closed (least levels) with
      | .error e => h.finish 0 (.error e)
      | .ok count => { h with reading := .taking count [] }
  | .taking count parts =>
    match h.link.lanes[parts.length]? with
    | none => h.finish count (.ok parts.flatten)
    | some lane =>
      let p := takeLane count lane
      let h := { h with link := { h.link with lanes := h.link.lanes.set parts.length p.2 } }
      match p.1 with
      | .error e => h.finish count (.error e)
      | .ok part => { h with reading := .taking count (parts ++ [part]) }

def step (h : Handover) : Party → Handover
  | .feeder => h.feed
  | .reader => h.advance

def run (h : Handover) (schedule : List Party) : Handover := schedule.foldl step h

/-- A link that nobody has used, and a feeder with the blocks `fed`. -/
def start (l : Link) (fed : List Buffer) : Handover where
  link := l
  pending := script l.lanes.length fed

/-! ### A read of its own -/

section Undisturbed

variable {h h' : Handover} {passed rest : List Lane}

/-- The reader gets from `h` to `h'` while the feeder rests. -/
def Leads (h h' : Handover) : Prop := ∃ n, h.run (List.replicate n .reader) = h'

theorem Leads.refl : h.Leads h := ⟨0, rfl⟩

theorem Leads.head (hl : h.advance.Leads h') : h.Leads h' := by
  obtain ⟨n, hn⟩ := hl
  exact ⟨n + 1, hn⟩

theorem Leads.trans {h'' : Handover} (hl : h.Leads h') (hl' : h'.Leads h'') : h.Leads h'' := by
  obtain ⟨n, rfl⟩ := hl
  obtain ⟨m, rfl⟩ := hl'
  refine ⟨n + m, ?_⟩
  rw [← List.replicate_append_replicate, run, List.foldl_append]
  rfl

theorem getElem?_passed (lane : Lane) (hlanes : h.link.lanes = passed ++ lane :: rest) :
    h.link.lanes[passed.length]? = some lane := by
  rw [hlanes, List.getElem?_append_right (Nat.le_refl _), Nat.sub_self, List.getElem?_cons_zero]

theorem testing_leads (hlanes : h.link.lanes = passed ++ rest)
    (hpassed : ∀ lane ∈ passed, lane.ring.closed = true) :
    Leads { h with reading := .testing passed.length }
      { h with reading := .measuring h.link.allClosed [] } := by
  induction rest generalizing passed with
  | nil =>
    have hall : h.link.allClosed = true := by
      simpa [allClosed, rings, hlanes] using hpassed
    have hnone : h.link.lanes[passed.length]? = none := by simp [hlanes]
    refine Leads.head ?_
    simp only [advance, hnone, hall]
    exact Leads.refl
  | cons lane rest ih =>
    have hget := getElem?_passed lane hlanes
    refine Leads.head ?_
    cases hclosed : lane.ring.closed with
    | true =>
      have hnext := @ih (passed ++ [lane]) (by simp [hlanes]) (by
        intro other hmem
        rcases List.mem_append.mp hmem with hmem | hmem
        · exact hpassed other hmem
        · rw [List.mem_singleton.mp hmem]
          exact hclosed)
      simpa [advance, hget, hclosed] using hnext
    | false =>
      have hopen : h.link.allClosed = false := by
        simp [allClosed, rings, hlanes, hclosed]
      simp only [advance, hget, hclosed, hopen]
      exact Leads.refl

theorem measuring_leads (closed : Bool) (hlanes : h.link.lanes = passed ++ rest) :
    Leads { h with reading := .measuring closed (passed.map (·.ring.length)) }
      { h with reading := .measuring closed (h.link.lanes.map (·.ring.length)) } := by
  induction rest generalizing passed with
  | nil =>
    rw [hlanes, List.append_nil]
    exact Leads.refl
  | cons lane rest ih =>
    have hget := getElem?_passed lane hlanes
    have hnext := @ih (passed ++ [lane]) (by simp [hlanes])
    refine Leads.head ?_
    simpa [advance, hget] using hnext

theorem taking_leads (count : Nat) (parts : List (List Sample))
    (hlanes : h.link.lanes = passed ++ rest) (hparts : parts.length = passed.length) :
    Leads { h with reading := .taking count parts }
      (finish { h with link := { h.link with lanes := passed ++ (takeLanes count rest).2 } } count
        ((takeLanes count rest).1.map (parts.flatten ++ ·))) := by
  induction rest generalizing h passed parts with
  | nil =>
    rw [List.append_nil] at hlanes
    have hnone : h.link.lanes[parts.length]? = none := by simp [hlanes, hparts]
    refine Leads.head ?_
    simp only [advance, hnone, takeLanes, Except.map, List.append_nil, ← hlanes]
    exact Leads.refl
  | cons lane rest ih =>
    have hget : h.link.lanes[parts.length]? = some lane := hparts ▸ getElem?_passed lane hlanes
    have hset (lane' : Lane) : h.link.lanes.set parts.length lane' = passed ++ lane' :: rest := by
      simp [hlanes, hparts]
    -- The first part fails the read, or the rest of the lanes decides.
    refine Leads.head ?_
    simp only [advance, hget, hset, takeLanes]
    rcases htake : takeLane count lane with ⟨e | part, lane'⟩
    · simp only [Except.map]
      exact Leads.refl
    · simp only
      have hnext := @ih { h with link := { h.link with lanes := passed ++ lane' :: rest } }
        (passed ++ [lane']) (parts ++ [part]) (by simp) (by simp [hparts])
      cases hrest : (takeLanes count rest).1 with
      | error e => simpa [hrest, Except.map] using hnext
      | ok samples => simpa [hrest, Except.map] using hnext

/-- A whole read is the row of its accesses. -/
theorem read_eq_steps (l : Link) (pending : List Write) (results : List (Except ReadError Buffer))
    (overflowed : Bool) :
    Leads { link := l, pending, results, overflowed }
      { link := l.read.2, pending, results := results ++ [l.read.1], overflowed } := by
  have htest := @testing_leads { link := l, pending, results, overflowed } [] l.lanes rfl (by simp)
  have hmeasure := @measuring_leads { link := l, pending, results, overflowed } [] l.lanes
    l.allClosed rfl
  have hnone : l.lanes[(l.lanes.map (·.ring.length)).length]? = none := by simp
  refine htest.trans (hmeasure.trans (Leads.head ?_))
  simp only [advance, hnone, ← available_eq, Link.read]
  cases plan l.blockLength l.allClosed l.available with
  | error e => exact Leads.refl
  | ok count =>
    have htake := @taking_leads { link := l, pending, results, overflowed } [] l.lanes count [] rfl
      rfl
    cases hend : (takeLanes count l.lanes).1 with
    | error e => simpa [hend, Except.map, finish] using htake
    | ok samples => simpa [hend, Except.map, finish] using htake

end Undisturbed

end Handover

end Link

end Oscilloscope
