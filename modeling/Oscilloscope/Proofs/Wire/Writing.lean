import Oscilloscope.Stage.WireSink

/-!
# Oscilloscope.Proofs.Wire.Writing

What a sink hands to its writer.

A writer takes as many bytes per call as it likes, is interrupted, and fails. `Writer.Passed` and
`Writer.Refused` say which of its answers to write calls have been used up.

* `Writer.written_writeAll`: all bytes are accepted, or a write fails and the bytes are torn.
* `WireSink.sent_writeFrames`, `WireSink.turned_turn`: the frames of a batch are written up to the
  first that is torn.
* `WireSink.run`: calls up to the first that fails or breaks off. `WireSink.run_ran`: what they leave
  behind.
-/

namespace Oscilloscope

namespace Wire

/-- The leading bytes of `bytes`, and not all of them. -/
def Torn (sent bytes : List UInt8) : Prop := sent <+: bytes ∧ sent.length < bytes.length

namespace Writer

/-- Answers to write calls that are no reason to stop. -/
def Passing (answers : List (Option Fault)) : Prop :=
  ∀ answer ∈ answers, answer = none ∨ answer = some .interrupted

theorem Passing.append {answers answers' : List (Option Fault)} (h : Passing answers)
    (h' : Passing answers') : Passing (answers ++ answers') := by
  intro a ha
  exact (List.mem_append.mp ha).elim (h a) (h' a)

/-- No write call failed between the two. -/
def Passed (w w' : Writer) : Prop :=
  ∃ answers, Passing answers ∧ w.writes = answers ++ w'.writes

/-- A write call failed between the two, and it was the last one. -/
def Refused (w w' : Writer) : Prop :=
  ∃ answers fault, Passing answers ∧ fault ≠ .interrupted ∧
    w.writes = answers ++ some fault :: w'.writes

namespace Passed

variable {w w' w'' : Writer}

theorem of_eq (h : w.writes = w'.writes) : Passed w w' := ⟨[], List.forall_mem_nil _, h⟩

theorem cons {answer : Option Fault} {writes : List (Option Fault)}
    (hok : answer = none ∨ answer = some .interrupted) (hscript : w.writes = answer :: writes)
    (hw : w'.writes = writes) : Passed w w' := by
  refine ⟨[answer], ?_, by rw [hscript, hw, List.singleton_append]⟩
  intro a ha
  rwa [List.mem_singleton.mp ha]

theorem trans (h : Passed w w') (h' : Passed w' w'') : Passed w w'' := by
  obtain ⟨answers, hpass, hscript⟩ := h
  obtain ⟨answers', hpass', hscript'⟩ := h'
  exact ⟨answers ++ answers', hpass.append hpass', by rw [hscript, hscript', List.append_assoc]⟩

theorem refused (h : Passed w w') (h' : Refused w' w'') : Refused w w'' := by
  obtain ⟨answers, hpass, hscript⟩ := h
  obtain ⟨answers', fault, hpass', hfault, hscript'⟩ := h'
  exact ⟨answers ++ answers', fault, hpass.append hpass', hfault,
    by rw [hscript, hscript', List.append_assoc]⟩

end Passed

/-- How writing all of `bytes` can end. -/
inductive Written (w : Writer) (bytes : List UInt8) : Option Fault × Writer → Prop where
  | whole {w' : Writer} (passed : Passed w w') (accepted : w'.accepted = w.accepted ++ bytes) :
      Written w bytes (none, w')
  | torn {w' : Writer} {fault : Fault} {sent : List UInt8} (refused : Refused w w')
      (torn : Torn sent bytes) (accepted : w'.accepted = w.accepted ++ sent) :
      Written w bytes (some fault, w')

/-- What is accepted before the writing goes on belongs to what is written. -/
theorem Written.of_accepted {w w₁ : Writer} (front : List UInt8) {rest : List UInt8}
    {p : Option Fault × Writer} (hpass : Passed w w₁)
    (haccepted : w₁.accepted = w.accepted ++ front) (h : Written w₁ rest p) :
    Written w (front ++ rest) p := by
  cases h with
  | whole passed accepted =>
    exact .whole (hpass.trans passed) (by rw [accepted, haccepted, List.append_assoc])
  | torn refused torn accepted =>
    refine .torn (hpass.refused refused) ⟨?_, ?_⟩ (by rw [accepted, haccepted, List.append_assoc])
    · exact List.prefix_append_right_inj front |>.mpr torn.1
    · have := torn.2
      rw [List.length_append, List.length_append]
      omega

theorem accept_spec (w : Writer) (bytes : List UInt8) :
    ∃ front, front ++ (w.accept bytes).1 = bytes ∧ (w.accept bytes).2.writes = w.writes ∧
      (w.accept bytes).2.accepted = w.accepted ++ front :=
  ⟨_, List.take_append_drop _ _, rfl, rfl⟩

theorem written_writeAll (w : Writer) (bytes : List UInt8) :
    Written w bytes (w.writeAll bytes) := by
  fun_induction writeAll w bytes with
  | case1 w => exact .whole (.of_eq rfl) (List.append_nil _).symm
  | case2 w b rest writes hscript ih =>
    have hpass : Passed w { w with writes } := .cons (.inr rfl) hscript rfl
    exact ih.of_accepted [] hpass (List.append_nil _).symm
  | case3 w b rest fault writes hnot hscript =>
    exact .torn ⟨[], fault, List.forall_mem_nil _, hnot, hscript⟩
      ⟨List.nil_prefix, Nat.succ_pos _⟩ (List.append_nil _).symm
  | case4 w b rest writes hscript p ih =>
    obtain ⟨front, hsplit, hwrites, haccepted⟩ := accept_spec { w with writes } (b :: rest)
    have hpass : Passed w p.2 := .cons (.inl rfl) hscript hwrites
    have h := ih.of_accepted front hpass haccepted
    rwa [hsplit] at h
  | case5 w b rest hscript p ih =>
    obtain ⟨front, hsplit, hwrites, haccepted⟩ := accept_spec w (b :: rest)
    have h := ih.of_accepted front (.of_eq hwrites.symm) haccepted
    rwa [hsplit] at h

theorem flush_writes (w : Writer) : w.flush.2.writes = w.writes := by
  unfold flush
  split <;> rfl

theorem flush_accepted (w : Writer) : w.flush.2.accepted = w.accepted := by
  unfold flush
  split <;> rfl

end Writer

end Wire

namespace WireSink

open Wire

/-- The bytes of some frames, each with the drops that its header reports. -/
def bytesOf (frames : List (Frame × UInt64)) : List UInt8 :=
  frames.flatMap fun f => encodeFrame f.1 f.2

theorem bytesOf_cons (f : Frame × UInt64) (frames : List (Frame × UInt64)) :
    bytesOf (f :: frames) = encodeFrame f.1 f.2 ++ bytesOf frames := List.flatMap_cons

theorem bytesOf_append (frames frames' : List (Frame × UInt64)) :
    bytesOf (frames ++ frames') = bytesOf frames ++ bytesOf frames' := List.flatMap_append

/-! ## One call -/

/-- How the writing of a batch can end: all frames are written, or the frame behind `before` is
torn. -/
inductive Sent (drops : UInt64) (s : WireSink) (batch : List Frame) :
    Bool × List Frame × WireSink → Prop where
  | all {s' : WireSink} (passed : s.writer.Passed s'.writer)
      (accepted : s'.writer.accepted = s.writer.accepted ++ bytesOf (batch.map (·, drops)))
      (count : s'.framesWritten = s.framesWritten + batch.length) :
      Sent drops s batch (true, [], s')
  | torn {s' : WireSink} (before : List Frame) {f : Frame} {left : List Frame} {sent : List UInt8}
      (refused : s.writer.Refused s'.writer) (split : batch = before ++ f :: left)
      (torn : Torn sent (encodeFrame f drops))
      (accepted : s'.writer.accepted =
        s.writer.accepted ++ (bytesOf (before.map (·, drops)) ++ sent))
      (count : s'.framesWritten = s.framesWritten + before.length) :
      Sent drops s batch (false, left, s')

theorem sent_writeFrames (drops : UInt64) (s : WireSink) (batch : List Frame) :
    Sent drops s batch (s.writeFrames drops batch) := by
  induction batch generalizing s with
  | nil => exact .all (.of_eq rfl) (List.append_nil _).symm rfl
  | cons f rest ih =>
    have hwritten := Writer.written_writeAll s.writer (encodeFrame f drops)
    rw [writeFrames]
    generalize s.writer.writeAll (encodeFrame f drops) = p at hwritten
    cases hwritten with
    | torn refused torn accepted => exact .torn [] refused rfl torn accepted rfl
    | @whole writer passed accepted =>
      have hrest := ih { s with writer, framesWritten := s.framesWritten + 1 }
      dsimp only
      generalize writeFrames drops { s with writer, framesWritten := s.framesWritten + 1 } rest = p
        at hrest
      cases hrest with
      | all passed' accepted' count =>
        refine .all (passed.trans passed') ?_ ?_
        · rw [accepted', accepted, List.map_cons, bytesOf_cons, List.append_assoc]
        · rw [count, List.length_cons, Nat.add_assoc, Nat.add_comm 1]
      | @torn _ before g left sent refused split torn accepted' count =>
        refine .torn (f :: before) (passed.refused refused) ?_ torn ?_ ?_
        · rw [split, List.cons_append]
        · rw [accepted', accepted, List.map_cons, bytesOf_cons, List.append_assoc,
            List.append_assoc]
        · rw [count, List.length_cons, Nat.add_assoc, Nat.add_comm 1]

/-- A call: the counters when it begins, and its batch. -/
structure Offer where
  counters : List DropCounter
  batch : List Frame

/-- The drops that the counters of a call add up to, if they fit their word. -/
def Offer.drops? (offer : Offer) : Option UInt64 := DropCounter.total? offer.counters

/-- The drops that the headers of a call report. -/
def Offer.drops (offer : Offer) : UInt64 := offer.drops?.getD 0

/-- A call with its answer and the frames that it left. -/
structure Turn where
  offer : Offer
  result : StageResult
  left : List Frame

/-- The frames that a call took, with the drops counted when it began. -/
def Turn.taken (t : Turn) : List (Frame × UInt64) :=
  (t.offer.batch.take (t.offer.batch.length - t.left.length)).map (·, t.offer.drops)

theorem Turn.taken_of_split {t : Turn} (frames : List Frame)
    (hsplit : t.offer.batch = frames ++ t.left) : t.taken = frames.map (·, t.offer.drops) := by
  rw [taken, hsplit, List.length_append, Nat.add_sub_cancel, List.take_left]

/-- What was taken and what was left make up the batch. -/
theorem Turn.batch_of_split {t : Turn} (frames : List Frame)
    (hsplit : t.offer.batch = frames ++ t.left) :
    t.offer.batch = t.taken.map Prod.fst ++ t.left := by
  have hframes : (frames.map (·, t.offer.drops)).map Prod.fst = frames := by
    rw [List.map_map]
    exact List.map_id _
  rw [taken_of_split frames hsplit, hframes, hsplit]

/-- A call, unless it breaks off. -/
def turn (s : WireSink) (offer : Offer) : Option (Turn × WireSink) :=
  match { s with counters := offer.counters }.process offer.batch with
  | .returned p => some (⟨offer, p.result, p.left⟩, p.stage)
  | _ => none

/-- How a call can end: its batch is sent, and if a frame was torn the answer is an error; or it
breaks off before it takes a frame, because the drops do not fit their word. -/
inductive Turned (s : WireSink) (offer : Offer) : Option (Turn × WireSink) → Prop where
  | sent {ok : Bool} {left : List Frame} {s' : WireSink} (result : StageResult)
      (total : offer.batch ≠ [] → offer.drops? = some offer.drops)
      (sent : Sent offer.drops s offer.batch (ok, left, s'))
      (failed : ok = false → result = .error) : Turned s offer (some (⟨offer, result, left⟩, s'))
  | brokenOff (frame : offer.batch ≠ []) (total : offer.drops? = none) : Turned s offer none

theorem turn_of_none {s : WireSink} {offer : Offer} (hframe : offer.batch ≠ [])
    (htotal : offer.drops? = none) : s.turn offer = none := by
  have hnone : { s with counters := offer.counters }.drops? = none := htotal
  rw [turn, process, if_neg (by simpa using hframe), hnone]

theorem turn_of_total {s : WireSink} {offer : Offer} {total : UInt64}
    (hframe : offer.batch ≠ []) (htotal : offer.drops? = some total) :
    s.turn offer =
      let p := { s with counters := offer.counters }.writeBatch offer.drops offer.batch
      some (⟨offer, p.result, p.left⟩, p.stage) := by
  have hsum : { s with counters := offer.counters }.drops? = some total := htotal
  rw [turn, process, if_neg (by simpa using hframe), hsum, Offer.drops, htotal]
  rfl

theorem turned_turn (s : WireSink) (offer : Offer) : Turned s offer (s.turn offer) := by
  by_cases hframe : offer.batch = []
  · obtain ⟨counters, batch⟩ := offer
    obtain rfl : batch = [] := hframe
    exact .sent .noData (fun h => absurd rfl h) (.all (.of_eq rfl) (List.append_nil _).symm rfl)
      (by intro h; cases h)
  · cases htotal : offer.drops? with
    | none =>
      rw [turn_of_none hframe htotal]
      exact .brokenOff hframe htotal
    | some total =>
      have hdrops : offer.drops? = some offer.drops := by rw [Offer.drops, htotal, Option.getD_some]
      rw [turn_of_total hframe htotal]
      have hsent :=
        sent_writeFrames offer.drops { s with counters := offer.counters } offer.batch
      rw [writeBatch]
      generalize writeFrames offer.drops { s with counters := offer.counters } offer.batch = p
        at hsent
      cases hsent with
      | @all s' passed accepted count =>
        -- The flush leaves what has been accepted.
        have hpass := passed.trans (.of_eq s'.writer.flush_writes.symm)
        exact .sent _ (fun _ => hdrops)
          (.all hpass (s'.writer.flush_accepted.trans accepted) count) (by intro h; cases h)
      | torn before refused split torn accepted count =>
        exact .sent .error (fun _ => hdrops) (.torn before refused split torn accepted count)
          fun _ => rfl

/-! ## Calls up to a failure -/

/-- Calls in a row, up to the first that answers with an error, or to one that breaks off. -/
def run (s : WireSink) : List Offer → List Turn × WireSink
  | [] => ([], s)
  | offer :: rest =>
    match s.turn offer with
    | none => ([], s)
    | some (t, s') =>
      if t.result = .error then ([t], s')
      else
        let q := run s' rest
        (t :: q.1, q.2)

/-- The calls that a run makes of some calls: all, those up to an error, or those before one that
breaks off. -/
inductive Made : List Offer → List Turn → Prop where
  | nil : Made [] []
  | failed {t : Turn} (rest : List Offer) (error : t.result = .error) : Made (t.offer :: rest) [t]
  | brokenOff {offer : Offer} (rest : List Offer) (frame : offer.batch ≠ [])
      (total : offer.drops? = none) : Made (offer :: rest) []
  | cons {t : Turn} {rest : List Offer} {turns : List Turn} (later : Made rest turns) :
      Made (t.offer :: rest) (t :: turns)

/-- What a turn says of its own call. -/
theorem Turned.offer_eq {s : WireSink} {offer : Offer} {t : Turn} {s' : WireSink}
    (h : Turned s offer (some (t, s'))) :
    t.offer = offer ∧ (t.offer.batch ≠ [] → t.offer.drops? = some t.offer.drops) := by
  cases h with
  | sent result total sent failed => exact ⟨rfl, total⟩

theorem run_made (s : WireSink) (offers : List Offer) :
    Made offers (s.run offers).1 ∧
      ∀ t ∈ (s.run offers).1, t.offer.batch ≠ [] → t.offer.drops? = some t.offer.drops := by
  induction offers generalizing s with
  | nil => exact ⟨.nil, List.forall_mem_nil _⟩
  | cons offer rest ih =>
    have hturned := turned_turn s offer
    rw [run]
    cases hturn : s.turn offer with
    | none =>
      rw [hturn] at hturned
      cases hturned with
      | brokenOff frame total => exact ⟨.brokenOff rest frame total, List.forall_mem_nil _⟩
    | some p =>
      obtain ⟨t, s'⟩ := p
      rw [hturn] at hturned
      obtain ⟨rfl, htotal⟩ := hturned.offer_eq
      dsimp only
      split
      · rename_i herror
        exact ⟨.failed rest herror, List.forall_mem_cons.mpr ⟨htotal, List.forall_mem_nil _⟩⟩
      · obtain ⟨hmade, htotals⟩ := ih s'
        exact ⟨.cons hmade, List.forall_mem_cons.mpr ⟨htotal, htotals⟩⟩

/-- Calls are made in order. There is none after an error, and a call that is not made has not been
reached, or it breaks off. -/
theorem Made.calls {offers : List Offer} {turns : List Turn} (h : Made offers turns) :
    turns.map Turn.offer <+: offers ∧
      ((∃ last, turns.getLast? = some last ∧ last.result = .error) ∨
        turns.map Turn.offer = offers ∨
        ∃ offer rest, offers = turns.map Turn.offer ++ offer :: rest ∧ offer.batch ≠ [] ∧
          offer.drops? = none) := by
  induction h with
  | nil => exact ⟨List.nil_prefix, .inr (.inl rfl)⟩
  | @failed t rest error => exact ⟨⟨rest, rfl⟩, .inl ⟨t, rfl, error⟩⟩
  | brokenOff rest frame total =>
    exact ⟨List.nil_prefix, .inr (.inr ⟨_, rest, rfl, frame, total⟩)⟩
  | @cons t rest turns later ih =>
    obtain ⟨hfront, hend⟩ := ih
    refine ⟨List.prefix_cons_inj t.offer |>.mpr hfront, ?_⟩
    rcases hend with ⟨last, hlast, herror⟩ | hall | ⟨offer, others, hsplit, hframe, htotal⟩
    · exact .inl ⟨last, by rw [List.getLast?_cons, hlast, Option.getD_some], herror⟩
    · exact .inr (.inl (by rw [List.map_cons, hall]))
    · exact .inr (.inr ⟨offer, others, by rw [hsplit, List.map_cons, List.cons_append], hframe,
        htotal⟩)

/-- What the calls of a run took. -/
def takenBy (turns : List Turn) : List (Frame × UInt64) := turns.flatMap Turn.taken

theorem takenBy_cons (t : Turn) (turns : List Turn) :
    takenBy (t :: turns) = t.taken ++ takenBy turns := List.flatMap_cons

/-- What a run leaves behind: all frames taken are written, or the last one is torn. -/
inductive Ran (s : WireSink) : List Turn × WireSink → Prop where
  | all {turns : List Turn} {s' : WireSink} (passed : s.writer.Passed s'.writer)
      (empty : ∀ t ∈ turns, t.left = [])
      (view : ∀ t ∈ turns, t.offer.batch = t.taken.map Prod.fst ++ t.left)
      (accepted : s'.writer.accepted = s.writer.accepted ++ bytesOf (takenBy turns))
      (count : s'.framesWritten = s.framesWritten + (takenBy turns).length) : Ran s (turns, s')
  | torn (turns : List Turn) {last : Turn} {s' : WireSink} (written : List (Frame × UInt64))
      (f : Frame × UInt64) {sent : List UInt8} (refused : s.writer.Refused s'.writer)
      (failed : last.result = .error) (taken : takenBy (turns ++ [last]) = written ++ [f])
      (view : ∀ t ∈ turns ++ [last], t.offer.batch = t.taken.map Prod.fst ++ t.left)
      (torn : Torn sent (encodeFrame f.1 f.2))
      (accepted : s'.writer.accepted = s.writer.accepted ++ (bytesOf written ++ sent))
      (count : s'.framesWritten = s.framesWritten + written.length) : Ran s (turns ++ [last], s')

/-- A call that wrote all of its frames, before a run. -/
theorem Ran.cons {s s₁ : WireSink} {t : Turn} {p : List Turn × WireSink}
    (hpass : s.writer.Passed s₁.writer) (hleft : t.left = [])
    (hview : t.offer.batch = t.taken.map Prod.fst ++ t.left)
    (haccepted : s₁.writer.accepted = s.writer.accepted ++ bytesOf t.taken)
    (hcount : s₁.framesWritten = s.framesWritten + t.taken.length) (h : Ran s₁ p) :
    Ran s (t :: p.1, p.2) := by
  cases h with
  | all passed empty view accepted count =>
    refine .all (hpass.trans passed) ?_ ?_ ?_ ?_
    · exact List.forall_mem_cons.mpr ⟨hleft, empty⟩
    · exact List.forall_mem_cons.mpr ⟨hview, view⟩
    · rw [accepted, haccepted, takenBy_cons, bytesOf_append, List.append_assoc]
    · rw [count, hcount, takenBy_cons, List.length_append, Nat.add_assoc]
  | @torn turns last s' written f sent refused failed taken view torn accepted count =>
    have htaken : takenBy (t :: turns ++ [last]) = t.taken ++ written ++ [f] := by
      rw [List.cons_append, takenBy_cons, taken, List.append_assoc]
    refine .torn (t :: turns) (t.taken ++ written) f (hpass.refused refused) failed htaken
      ?_ torn ?_ ?_
    · rw [List.cons_append]
      exact List.forall_mem_cons.mpr ⟨hview, view⟩
    · rw [accepted, haccepted, bytesOf_append, List.append_assoc, List.append_assoc]
    · rw [count, hcount, List.length_append, Nat.add_assoc]

theorem ran_nil (s : WireSink) : Ran s ([], s) :=
  .all (.of_eq rfl) (List.forall_mem_nil _) (List.forall_mem_nil _) (List.append_nil _).symm rfl

theorem run_ran (s : WireSink) (offers : List Offer) : Ran s (s.run offers) := by
  induction offers generalizing s with
  | nil => exact ran_nil s
  | cons offer rest ih =>
    have hturned := turned_turn s offer
    rw [run]
    generalize s.turn offer = p at hturned
    obtain @⟨ok, left, s₁, result, total, sent, failed⟩ | ⟨frame, total⟩ := hturned
    case brokenOff => exact ran_nil s
    cases sent with
    | all passed accepted count =>
      have hsplit : offer.batch = offer.batch ++ [] := (List.append_nil _).symm
      have htaken : Turn.taken ⟨offer, result, []⟩ = offer.batch.map (·, offer.drops) :=
        Turn.taken_of_split _ hsplit
      have hlength : (Turn.taken ⟨offer, result, []⟩).length = offer.batch.length := by
        rw [htaken, List.length_map]
      rw [← htaken] at accepted
      rw [← hlength] at count
      have hcons (p : List Turn × WireSink) (hp : Ran s₁ p) :
          Ran s (⟨offer, result, []⟩ :: p.1, p.2) :=
        .cons passed rfl (Turn.batch_of_split _ hsplit) accepted count hp
      dsimp only
      by_cases herror : result = .error
      · rw [if_pos herror]
        exact hcons ([], s₁) (ran_nil s₁)
      · rw [if_neg herror]
        exact hcons _ (ih s₁)
    | @torn _ before f _ bytes refused split torn accepted count =>
      have hsplit : offer.batch = before ++ [f] ++ left := by
        rw [split, List.append_assoc, List.singleton_append]
      have htaken : takenBy ([] ++ [⟨offer, result, left⟩]) =
          before.map (·, offer.drops) ++ [(f, offer.drops)] := by
        rw [List.nil_append, takenBy_cons, Turn.taken_of_split _ hsplit, List.map_append]
        exact List.append_nil _
      have herror : result = .error := failed rfl
      dsimp only
      rw [if_pos herror]
      refine Ran.torn [] _ (f, offer.drops) refused herror htaken ?_ torn accepted ?_
      · exact List.forall_mem_cons.mpr ⟨Turn.batch_of_split _ hsplit, List.forall_mem_nil _⟩
      · rwa [List.length_map]

end WireSink

end Oscilloscope
