import Oscilloscope.Pipeline.Worker
import Oscilloscope.Proofs.Wire.Writing

/-!
# Oscilloscope.Proofs.Wire.Flushing

A sink whose flush stalls, and the second call of its worker.

Such a sink asks for its batch again. But it has emptied the batch before it flushed, and a call
with an empty batch does nothing: it answers that there is nothing to do, and the worker goes on.
So a stalled flush is not made again before a batch with a frame comes.

* `Writer.writeAll_flushes`, `WireSink.writeFrames_flushes`: writing uses up no answer to a flush.
* `WireSink.called_turn`: how one call ends, and that it flushes once if all is written.
* `WireSink.serve`: what a worker does with one batch. `WireSink.served_serve`: how that can end.
* `WireSink.serveAll`: batch after batch, until the worker leaves its loop.
* `WireSink.serveAll_flushes`: for each batch one flush, and every frame at most once.
-/

namespace Oscilloscope

namespace Wire
namespace Writer

theorem writeAll_flushes (w : Writer) (bytes : List UInt8) :
    (w.writeAll bytes).2.flushes = w.flushes := by
  fun_induction writeAll w bytes with
  | case1 => rfl
  | case2 _ _ _ _ _ ih => exact ih
  | case3 => rfl
  | case4 _ _ _ _ _ _ ih => exact ih
  | case5 _ _ _ _ _ ih => exact ih

/-- The next answer to a flush. -/
theorem flush_answer {w w' : Writer} (h : w'.flushes = w.flushes) : w'.flush.1 = w.flush.1 := by
  unfold flush
  rw [h]
  cases w.flushes <;> rfl

theorem flush_flushes (w : Writer) : w.flush.2.flushes = w.flushes.tail := by
  unfold flush
  split
  · rename_i hnone
    rw [hnone]
    rfl
  · rename_i hsome
    rw [hsome]
    rfl

end Writer
end Wire

namespace WireSink

open Wire Pipeline

/-! ## One call -/

theorem writeFrames_flushes (drops : UInt64) (s : WireSink) (batch : List Frame) :
    (s.writeFrames drops batch).2.2.writer.flushes = s.writer.flushes := by
  induction batch generalizing s with
  | nil => rfl
  | cons f rest ih =>
    have hwrite := s.writer.writeAll_flushes (encodeFrame f drops)
    rw [writeFrames]
    generalize s.writer.writeAll (encodeFrame f drops) = p at hwrite
    obtain ⟨fault, writer⟩ := p
    cases fault with
    | some fault => exact hwrite
    | none => exact (ih _).trans hwrite

/-- What a sink answers after a flush. -/
def answerTo : Option Fault → StageResult
  | none => .ok
  | some .wouldBlock => .retry
  | some _ => .error

/-- A call that writes all of its frames, at least one, and then flushes once. -/
structure Emptied (drops : UInt64) (s : WireSink) (batch : List Frame) (s' : WireSink) : Prop where
  frame : batch ≠ []
  sent : Sent drops s batch (true, [], s')
  once : s'.writer.flushes = s.writer.flushes.tail

/-- A call that cannot write one of its frames, and does not flush. -/
structure Failed (drops : UInt64) (s : WireSink) (batch left : List Frame) (s' : WireSink) :
    Prop where
  sent : Sent drops s batch (false, left, s')
  never : s'.writer.flushes = s.writer.flushes

/-- A call that does nothing. -/
structure Idle (s s' : WireSink) : Prop where
  writer : s'.writer = s.writer
  count : s'.framesWritten = s.framesWritten

/-- How a call can end. The flush gives the answer, if all frames are written. A call whose drops do
not fit their word breaks off before it takes a frame. -/
inductive Called (s : WireSink) (offer : Offer) : Option (Turn × WireSink) → Prop where
  | idle {s' : WireSink} (empty : offer.batch = []) (same : Idle s s') :
      Called s offer (some (⟨offer, .noData, []⟩, s'))
  | emptied {s' : WireSink} (emptied : Emptied offer.drops s offer.batch s') :
      Called s offer (some (⟨offer, answerTo s.writer.flush.1, []⟩, s'))
  | failed {left : List Frame} {s' : WireSink} (failed : Failed offer.drops s offer.batch left s') :
      Called s offer (some (⟨offer, .error, left⟩, s'))
  | brokenOff (frame : offer.batch ≠ []) (total : offer.drops? = none) : Called s offer none

theorem called_turn (s : WireSink) (offer : Offer) : Called s offer (s.turn offer) := by
  by_cases hframe : offer.batch = []
  · obtain ⟨counters, batch⟩ := offer
    obtain rfl : batch = [] := hframe
    exact .idle rfl ⟨rfl, rfl⟩
  · cases htotal : offer.drops? with
    | none =>
      rw [turn_of_none hframe htotal]
      exact .brokenOff hframe htotal
    | some total =>
      have hsent :=
        sent_writeFrames offer.drops { s with counters := offer.counters } offer.batch
      have hkept :=
        writeFrames_flushes offer.drops { s with counters := offer.counters } offer.batch
      rw [turn_of_total hframe htotal, writeBatch]
      generalize writeFrames offer.drops { s with counters := offer.counters } offer.batch = p
        at hsent hkept
      cases hsent with
      | @all s' passed accepted count =>
        have hanswer : s'.writer.flush.1 = s.writer.flush.1 := Writer.flush_answer hkept
        have hflush : s'.writer.flush.2.flushes = s.writer.flushes.tail := by
          rw [Writer.flush_flushes, hkept]
        have hpassed := passed.trans (.of_eq s'.writer.flush_writes.symm)
        have haccepted := s'.writer.flush_accepted.trans accepted
        have hcalled : Called s offer (some (⟨offer, answerTo s.writer.flush.1, []⟩,
            { s' with writer := s'.writer.flush.2 })) :=
          .emptied ⟨hframe, .all hpassed haccepted count, hflush⟩
        rw [← hanswer] at hcalled
        exact hcalled
      | torn before refused split torn accepted count =>
        exact .failed ⟨.torn before refused split torn accepted count, hkept⟩

/-! ## One batch -/

/-- A batch that comes to the sink: the counters at the first call and at a second one, and whether
a stop has been requested when the worker looks. -/
structure Offering where
  batch : List Frame
  counters : List DropCounter := []
  later : List DropCounter := []
  stopRequested : Bool := false

/-- The drops that the counters add up to at the first call, if they fit their word. -/
def Offering.drops? (o : Offering) : Option UInt64 := Offer.drops? ⟨o.counters, o.batch⟩

/-- The drops that the headers of a batch report. -/
def Offering.drops (o : Offering) : UInt64 := Offer.drops ⟨o.counters, o.batch⟩

/-- What comes of a batch: the sink before, the first call and, if there is one, the second, what
the worker does next, and the sink after. -/
structure Visit where
  offering : Offering
  before : WireSink
  first : Turn
  second : Option Turn
  next : Phase
  after : WireSink

/-- The answer to the last call. -/
def Visit.result (v : Visit) : StageResult := (v.second.getD v.first).result

/-- A worker offers a batch, and once more what is left of it if the sink asks for that. Nothing
comes of a batch whose call breaks off. -/
def serve (s : WireSink) (o : Offering) : Option Visit :=
  match s.turn ⟨o.counters, o.batch⟩ with
  | none => none
  | some (first, s₁) =>
    match Worker.afterCall o.stopRequested first.left false first.result with
    | .calling left again =>
      match s₁.turn ⟨o.later, left⟩ with
      | none => none
      | some (second, s₂) =>
        let next := Worker.afterCall o.stopRequested second.left again second.result
        some ⟨o, s, first, some second, next, s₂⟩
    | next => some ⟨o, s, first, none, next, s₁⟩

/-- How a batch can end. An empty one does nothing, and a torn frame ends the loop. Else there is
one flush. If it stalls there is a second call, which finds the batch empty and does nothing,
unless a stop has been requested. -/
inductive Settled (s : WireSink) (o : Offering) : Visit → Prop where
  | idle {first : Turn} {s' : WireSink} (empty : o.batch = []) (same : Idle s s')
      (answer : first.result = .noData) : Settled s o ⟨o, s, first, none, .checking, s'⟩
  | torn {first : Turn} {left : List Frame} {s' : WireSink}
      (failed : Failed o.drops s o.batch left s') (answer : first.result = .error) :
      Settled s o ⟨o, s, first, none, .leaving .error, s'⟩
  | flushed {first : Turn} {s' : WireSink} (emptied : Emptied o.drops s o.batch s')
      (flush : s.writer.flush.1 = none) (answer : first.result = .ok) :
      Settled s o ⟨o, s, first, none, .checking, s'⟩
  | broken {first : Turn} {fault : Fault} {s' : WireSink} (emptied : Emptied o.drops s o.batch s')
      (flush : s.writer.flush.1 = some fault) (serious : fault ≠ .wouldBlock)
      (answer : first.result = .error) :
      Settled s o ⟨o, s, first, none, .leaving .error, s'⟩
  | stopped {first : Turn} {s' : WireSink} (emptied : Emptied o.drops s o.batch s')
      (flush : s.writer.flush.1 = some .wouldBlock) (stop : o.stopRequested = true)
      (answer : first.result = .retry) : Settled s o ⟨o, s, first, none, .leaving .stopped, s'⟩
  | stalled {first second : Turn} {s' : WireSink} (emptied : Emptied o.drops s o.batch s')
      (flush : s.writer.flush.1 = some .wouldBlock) (noStop : o.stopRequested = false)
      (answer : first.result = .retry) (answer' : second.result = .noData) :
      Settled s o ⟨o, s, first, some second, .checking, s'⟩

theorem Emptied.idle {drops : UInt64} {s s₁ s' : WireSink} {batch : List Frame}
    (h : Emptied drops s batch s₁) (hidle : Idle s₁ s') : Emptied drops s batch s' := by
  obtain ⟨frame, sent, once⟩ := h
  obtain ⟨hwriter, hcount⟩ := hidle
  cases sent with
  | all passed accepted count =>
    rw [← hwriter] at passed accepted once
    exact ⟨frame, .all passed accepted (hcount.trans count), once⟩

theorem Emptied.written {drops : UInt64} {s s' : WireSink} {batch : List Frame}
    (h : Emptied drops s batch s') :
    s'.writer.accepted = s.writer.accepted ++ bytesOf (batch.map (·, drops)) ∧
      s'.framesWritten = s.framesWritten + batch.length := by
  cases h.sent with
  | all passed accepted count => exact ⟨accepted, count⟩

/-- What can come of a batch. Only its first call can break off. -/
inductive Served (s : WireSink) (o : Offering) : Option Visit → Prop where
  | settled {v : Visit} (settled : Settled s o v) : Served s o (some v)
  | brokenOff (frame : o.batch ≠ []) (total : o.drops? = none) : Served s o none

theorem served_serve (s : WireSink) (o : Offering) : Served s o (s.serve o) := by
  have hcalled := called_turn s ⟨o.counters, o.batch⟩
  rw [serve]
  generalize s.turn ⟨o.counters, o.batch⟩ = p at hcalled
  cases hcalled with
  | brokenOff frame total => exact .brokenOff frame total
  | idle empty same => exact .settled (.idle empty same rfl)
  | failed failed => exact .settled (.torn failed rfl)
  | @emptied s₁ emptied =>
    cases hflush : s.writer.flush.1 with
    | none => exact .settled (.flushed emptied hflush rfl)
    | some fault =>
      cases fault with
      | interrupted => exact .settled (.broken emptied hflush (by decide) rfl)
      | failed => exact .settled (.broken emptied hflush (by decide) rfl)
      | wouldBlock =>
        cases hstop : o.stopRequested with
        | true => exact .settled (.stopped emptied hflush hstop rfl)
        | false =>
          -- The first call has left nothing for the second, which cannot break off.
          have hidle : Idle s₁ { s₁ with counters := o.later } := ⟨rfl, rfl⟩
          exact .settled (.stalled (emptied.idle hidle) hflush hstop rfl rfl)

theorem settled_serve {s : WireSink} {o : Offering} {v : Visit} (h : s.serve o = some v) :
    Settled s o v := by
  have hserved := served_serve s o
  rw [h] at hserved
  cases hserved with
  | settled settled => exact settled

/-- A batch whose last answer lets the worker go on has been flushed once. It is that flush that
tells the two answers apart. -/
theorem Settled.goesOn {s : WireSink} {o : Offering} {v : Visit} (h : Settled s o v)
    (hframe : o.batch ≠ []) (hresult : v.result = .ok ∨ v.result = .noData) :
    Emptied o.drops s o.batch v.after ∧ (v.result = .ok ↔ s.writer.flush.1 = none) ∧
      (v.result = .noData ↔ s.writer.flush.1 = some .wouldBlock) := by
  cases h with
  | idle empty => exact absurd empty hframe
  | torn failed answer => simp [Visit.result, answer] at hresult
  | broken emptied flush serious answer => simp [Visit.result, answer] at hresult
  | stopped emptied flush stop answer => simp [Visit.result, answer] at hresult
  | flushed emptied flush answer => exact ⟨emptied, by simp [Visit.result, answer, flush]⟩
  | stalled emptied flush noStop answer answer' =>
    exact ⟨emptied, by simp [Visit.result, answer', flush]⟩

/-! ## Batch after batch -/

/-- A worker offers batches until it leaves its loop, of its own accord or because a stop has been
requested, or until a call breaks off. -/
def serveAll (s : WireSink) : List Offering → List Visit × WireSink
  | [] => ([], s)
  | o :: rest =>
    match s.serve o with
    | none => ([], s)
    | some v =>
      match v.next, o.stopRequested with
      | .checking, false =>
        let q := serveAll v.after rest
        (v :: q.1, q.2)
      | _, _ => ([v], v.after)

/-- What has been written of some frames: all, or those before one that is torn. -/
inductive Wrote (s s' : WireSink) : List Frame → Prop where
  | all (written : List (Frame × UInt64))
      (accepted : s'.writer.accepted = s.writer.accepted ++ bytesOf written)
      (count : s'.framesWritten = s.framesWritten + written.length) :
      Wrote s s' (written.map Prod.fst)
  | torn (written : List (Frame × UInt64)) (f : Frame × UInt64) (left : List Frame)
      {sent : List UInt8} (torn : Torn sent (encodeFrame f.1 f.2))
      (accepted : s'.writer.accepted = s.writer.accepted ++ (bytesOf written ++ sent))
      (count : s'.framesWritten = s.framesWritten + written.length) :
      Wrote s s' (written.map Prod.fst ++ f.1 :: left)

theorem Idle.wrote {s s' : WireSink} (h : Idle s s') : Wrote s s' [] := by
  refine .all [] ?_ h.count
  rw [h.writer]
  exact (List.append_nil _).symm

theorem map_fst_drops (frames : List Frame) (drops : UInt64) :
    (frames.map (·, drops)).map Prod.fst = frames := by
  rw [List.map_map]
  exact List.map_id _

theorem Sent.wrote {drops : UInt64} {s s' : WireSink} {batch left : List Frame} {ok : Bool}
    (h : Sent drops s batch (ok, left, s')) : Wrote s s' batch := by
  cases h with
  | all passed accepted count =>
    have hall : Wrote s s' _ := .all (batch.map (·, drops)) accepted
      (by rw [List.length_map, count])
    rwa [map_fst_drops] at hall
  | torn before refused split torn accepted count =>
    have htorn : Wrote s s' _ := .torn (before.map (·, drops)) (_, drops) left torn accepted
      (by rw [List.length_map, count])
    rwa [map_fst_drops, ← split] at htorn

/-- The frames of a batch are written, up to one that is torn. -/
theorem Settled.wrote {s : WireSink} {o : Offering} {v : Visit} (h : Settled s o v) :
    Wrote s v.after o.batch := by
  cases h with
  | idle empty same =>
    rw [empty]
    exact same.wrote
  | torn failed => exact failed.sent.wrote
  | flushed emptied => exact emptied.sent.wrote
  | broken emptied => exact emptied.sent.wrote
  | stopped emptied => exact emptied.sent.wrote
  | stalled emptied => exact emptied.sent.wrote

/-- All are written if the worker goes on. -/
theorem Settled.written {s : WireSink} {o : Offering} {v : Visit} (h : Settled s o v)
    (hnext : v.next = .checking) :
    v.after.writer.accepted = s.writer.accepted ++ bytesOf (o.batch.map (·, o.drops)) ∧
      v.after.framesWritten = s.framesWritten + o.batch.length := by
  cases h with
  | idle empty same =>
    rw [empty, same.writer, same.count]
    exact ⟨(List.append_nil _).symm, rfl⟩
  | torn => cases hnext
  | broken => cases hnext
  | stopped => cases hnext
  | flushed emptied => exact emptied.written
  | stalled emptied => exact emptied.written

theorem Settled.known {s : WireSink} {o : Offering} {v : Visit} (h : Settled s o v) :
    v.before = s ∧ v.offering = o := by
  cases h <;> exact ⟨rfl, rfl⟩

/-- Frames that are all written, before others. -/
theorem Wrote.append {s s₁ s' : WireSink} {frames : List Frame} (before : List (Frame × UInt64))
    (haccepted : s₁.writer.accepted = s.writer.accepted ++ bytesOf before)
    (hcount : s₁.framesWritten = s.framesWritten + before.length) (h : Wrote s₁ s' frames) :
    Wrote s s' (before.map Prod.fst ++ frames) := by
  cases h with
  | all written accepted count =>
    rw [← List.map_append]
    refine .all _ ?_ ?_
    · rw [accepted, haccepted, bytesOf_append, List.append_assoc]
    · rw [count, hcount, List.length_append, Nat.add_assoc]
  | torn written f left torn accepted count =>
    rw [← List.append_assoc, ← List.map_append]
    refine .torn _ f left torn ?_ ?_
    · rw [accepted, haccepted, bytesOf_append, List.append_assoc, List.append_assoc]
    · rw [count, hcount, List.length_append, Nat.add_assoc]

/-- The visits of a run: one for each batch, with the sink that the one before it has left, and
none after the worker has left its loop or a call has broken off. -/
inductive Visited : WireSink → List Offering → List Visit × WireSink → Prop where
  | nil (s : WireSink) : Visited s [] ([], s)
  | brokenOff {s : WireSink} {o : Offering} {rest : List Offering} (frame : o.batch ≠ [])
      (total : o.drops? = none) : Visited s (o :: rest) ([], s)
  | ends {s : WireSink} {o : Offering} {rest : List Offering} {v : Visit}
      (visit : s.serve o = some v) (leaves : v.next = .checking → o.stopRequested = true) :
      Visited s (o :: rest) ([v], v.after)
  | goesOn {s : WireSink} {o : Offering} {rest : List Offering} {v : Visit}
      {p : List Visit × WireSink} (visit : s.serve o = some v) (next : v.next = .checking)
      (noStop : o.stopRequested = false) (later : Visited v.after rest p) :
      Visited s (o :: rest) (v :: p.1, p.2)

theorem visited_serveAll (s : WireSink) (offerings : List Offering) :
    Visited s offerings (s.serveAll offerings) := by
  induction offerings generalizing s with
  | nil => exact .nil s
  | cons o rest ih =>
    rw [serveAll]
    cases hvisit : s.serve o with
    | none =>
      have hserved := served_serve s o
      rw [hvisit] at hserved
      cases hserved with
      | brokenOff frame total => exact .brokenOff frame total
    | some v =>
      dsimp only
      split
      · rename_i hnext hstop
        exact .goesOn hvisit hnext hstop (ih _)
      · rename_i hnot
        refine .ends hvisit fun hnext => ?_
        cases hstop : o.stopRequested with
        | true => rfl
        | false => exact absurd hstop (hnot hnext)

theorem Visited.settled {s : WireSink} {offerings : List Offering} {p : List Visit × WireSink}
    (h : Visited s offerings p) : ∀ v ∈ p.1, Settled v.before v.offering v := by
  have hserve {s : WireSink} {o : Offering} {v : Visit} (hvisit : s.serve o = some v) :
      Settled v.before v.offering v := by
    have hsettled := settled_serve hvisit
    obtain ⟨hbefore, hoffering⟩ := hsettled.known
    rwa [hbefore, hoffering]
  induction h with
  | nil => exact List.forall_mem_nil _
  | brokenOff => exact List.forall_mem_nil _
  | ends visit leaves => exact List.forall_mem_cons.mpr ⟨hserve visit, List.forall_mem_nil _⟩
  | goesOn visit next noStop later ih => exact List.forall_mem_cons.mpr ⟨hserve visit, ih⟩

theorem Visited.wrote {s : WireSink} {offerings : List Offering} {p : List Visit × WireSink}
    (h : Visited s offerings p) : Wrote s p.2 (p.1.flatMap (·.offering.batch)) := by
  induction h with
  | nil s => exact Idle.wrote ⟨rfl, rfl⟩
  | @brokenOff s => exact Idle.wrote ⟨rfl, rfl⟩
  | ends visit leaves =>
    have hsettled := settled_serve visit
    rw [List.flatMap_singleton, hsettled.known.2]
    exact hsettled.wrote
  | @goesOn s o rest v p visit next noStop later ih =>
    have hsettled := settled_serve visit
    obtain ⟨haccepted, hcount⟩ := hsettled.written next
    rw [← List.length_map (·, o.drops)] at hcount
    have hwrote := ih.append (o.batch.map (·, o.drops)) haccepted hcount
    rw [map_fst_drops] at hwrote
    rwa [List.flatMap_cons, hsettled.known.2]

/-- **Stalled flushes.** Whatever the writer does and whatever batches come, a batch costs at most
one flush. If it had a frame and its last answer is `ok`, that flush succeeded; if it is `noData`,
the flush stalled, and the second call has left it as it is. No frame is written twice. -/
theorem serveAll_flushes (s : WireSink) (offerings : List Offering) :
    let done := s.serveAll offerings
    Visited s offerings done ∧ (∀ v ∈ done.1, Settled v.before v.offering v) ∧
      (∀ v ∈ done.1, v.offering.batch ≠ [] → v.result = .ok ∨ v.result = .noData →
        Emptied v.offering.drops v.before v.offering.batch v.after ∧
          (v.result = .ok ↔ v.before.writer.flush.1 = none) ∧
          (v.result = .noData ↔ v.before.writer.flush.1 = some .wouldBlock)) ∧
      Wrote s done.2 (done.1.flatMap (·.offering.batch)) := by
  intro done
  have hvisited := visited_serveAll s offerings
  have hsettled := hvisited.settled
  refine ⟨hvisited, hsettled, ?_, hvisited.wrote⟩
  intro v hv hframe hresult
  exact (hsettled v hv).goesOn hframe hresult

/-- The flush of the only frame stalls. The second call answers that there is nothing to do, and the
next answer to a flush, another stall, is still to come. -/
theorem serveAll_unflushed :
    let s : WireSink := { writer := { flushes := [some .wouldBlock, some .wouldBlock] } }
    let done := s.serveAll [{ batch := [Frame.zeros 1 1] }]
    done.1.map (fun v => (v.first.result, v.result)) = [(.retry, .noData)] ∧
      (∃ v ∈ done.1, v.offering.batch.isEmpty = false ∧ v.result = .noData ∧
        v.before.writer.flush.1 = some .wouldBlock) ∧
      done.2.writer.flushes = [some .wouldBlock] ∧ done.2.framesWritten = 1 := by
  decide +kernel

end WireSink

end Oscilloscope
