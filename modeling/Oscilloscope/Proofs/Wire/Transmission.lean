import Oscilloscope.Proofs.Wire.Resync
import Oscilloscope.Proofs.Wire.Writing

/-!
# Oscilloscope.Proofs.Wire.Transmission

From the queue of a sink to the reads of a source.

* `StreamSource.drain_of_torn`: frames one after the other, with a torn one at the end, are read
  without a skip, up to the torn one.
* `WireSink.run_transmits`: whatever the writer does, it accepts the frames that are counted as
  written, and a source gives back exactly those.
-/

namespace Oscilloscope

namespace Wire

/-- The bytes of a frame that is torn behind its header begin with the header. -/
theorem decode_of_torn {sent : List UInt8} {f : Frame} {drops : UInt64}
    (hmax : f.samples.length * 2 ≤ maxPayload) (htorn : Torn sent (encodeFrame f drops))
    (hlen : headerLength ≤ sent.length) :
    Header.decode sent = .ok (Header.ofFrame f drops) := by
  obtain ⟨missing, hsplit⟩ := htorn.1
  have hdecode := decode_encodeFrame hmax drops []
  rwa [List.append_nil, ← hsplit, Header.decode_append hlen] at hdecode

namespace StreamSource

/-- A source between two frames finds no frame in these bytes, and nothing to skip. -/
def Barren (bytes : List UInt8) : Prop :=
  ∀ s : StreamSource, s.pending = none → s.buffered = [] → Delivers bytes 0 s.reader →
    s.drain.answers = [] ∧ s.drain.last = .error .endOfStream ∧
      s.drain.source.resyncs = s.resyncs

theorem barren_of_short {bytes : List UInt8} (hshort : bytes.length < headerLength) :
    Barren bytes := by
  intro s idle hempty hdel
  obtain ⟨s', hread, hresyncs⟩ := read_of_nothing idle hempty hdel (locate_of_length_lt hshort)
  rw [drain_of_end hread rfl, hresyncs, if_neg (Nat.not_le.mpr hshort)]
  exact ⟨rfl, rfl, UInt64.add_zero _⟩

/-- A header may be there, but then its payload is not. -/
theorem barren_of_torn {sent : List UInt8} {f : Frame} {drops : UInt64}
    (hmax : f.samples.length * 2 ≤ maxPayload) (htorn : Torn sent (encodeFrame f drops)) :
    Barren sent := by
  by_cases hlen : headerLength ≤ sent.length
  · intro s idle hempty hdel
    have hdecode := decode_of_torn hmax htorn hlen
    have hshort : (sent.drop headerLength).length < (Header.ofFrame f drops).payload.toNat := by
      have := htorn.2
      rw [encodeFrame, List.length_append, Header.length_bytes] at this
      rw [payload_ofFrame hmax, List.length_drop]
      omega
    obtain ⟨s', hread, hresyncs⟩ :=
      read_of_cut idle hempty hdel (locate_of_ok hdecode) hshort
    rw [drain_of_end hread rfl, hresyncs, gapped_of_ok hdecode]
    exact ⟨rfl, rfl, UInt64.add_zero _⟩
  · exact barren_of_short (Nat.not_le.mp hlen)

theorem drain_of_frames {frames : List (Frame × UInt64)} {last : List UInt8}
    (hmax : ∀ f ∈ frames, f.1.samples.length * 2 ≤ maxPayload) (hlast : Barren last)
    {s : StreamSource} (idle : s.pending = none) (hempty : s.buffered = [])
    (hdel : Delivers (WireSink.bytesOf frames ++ last) 0 s.reader) :
    s.drain.answers = frames.map (fun f => .ok f.1.toBuffer) ∧
      s.drain.last = .error .endOfStream ∧ s.drain.source.resyncs = s.resyncs := by
  induction frames generalizing s with
  | nil => exact hlast s idle hempty hdel
  | cons f rest ih =>
    obtain ⟨hfits, hrest⟩ := List.forall_mem_cons.mp hmax
    rw [WireSink.bytesOf_cons, List.append_assoc] at hdel
    have hquiet : Quiet [] (encodeFrame f.1 f.2 ++ (WireSink.bytesOf rest ++ last)) :=
      fun i hi => absurd hi (Nat.not_lt_zero i)
    have hnone : ¬Overflowing [] (encodeFrame f.1 f.2 ++ (WireSink.bytesOf rest ++ last)) :=
      fun ⟨i, hi, _⟩ => absurd hi (Nat.not_lt_zero i)
    obtain ⟨s', hread, hidle', hempty', hdel', hresyncs⟩ :=
      read_of_quiet hquiet hnone hfits idle hempty hdel
    obtain ⟨hblocks, hend, hcount⟩ := ih hrest hidle' hempty' hdel'
    rw [drain_of_result hread rfl, Drained.cons, hblocks, List.map_cons, hcount, hresyncs]
    exact ⟨rfl, hend, UInt64.add_zero _⟩

end StreamSource

end Wire

namespace WireSink

open Wire

/-- What a run over `calls` with the writer `w` comes to: the frames `written`, and the bytes `torn`
of a frame behind them. -/
structure Transmitted (w : Writer) (calls : List Offer) (turns : List Turn) (s : WireSink)
    (written : List (Frame × UInt64)) (torn : List UInt8) : Prop where
  /-- Calls are made in order. One that fails is the last, and so is one that breaks off before it
  takes a frame, because its drops do not fit a word. -/
  calls : turns.map Turn.offer <+: calls ∧
    ((∃ last, turns.getLast? = some last ∧ last.result = .error) ∨
      turns.map Turn.offer = calls ∨
      ∃ call rest, calls = turns.map Turn.offer ++ call :: rest ∧ call.batch ≠ [] ∧
        call.drops? = none)
  /-- The drops reported are those that the counters add up to when the call begins. -/
  drops : ∀ t ∈ turns, t.offer.batch ≠ [] → t.offer.drops? = some t.offer.drops
  /-- What a call does not take stays in the view. -/
  view : ∀ t ∈ turns, t.offer.batch = t.taken.map Prod.fst ++ t.left
  count : s.framesWritten = written.length
  accepted : s.writer.accepted = bytesOf written ++ torn
  /-- All frames are taken and written, or a write failed and with it the last frame taken. -/
  ending :
    (w.Passed s.writer ∧ takenBy turns = written ∧ (∀ t ∈ turns, t.left = []) ∧ torn = []) ∨
    (w.Refused s.writer ∧ ∃ last f, turns.getLast? = some last ∧ last.result = .error ∧
      takenBy turns = written ++ [f] ∧ Torn torn (encodeFrame f.1 f.2))

/-- The frames written are the first ones taken. -/
theorem Transmitted.written_eq {w : Writer} {calls : List Offer} {turns : List Turn}
    {s : WireSink} {written : List (Frame × UInt64)} {torn : List UInt8}
    (h : Transmitted w calls turns s written torn) :
    written = (takenBy turns).take s.framesWritten := by
  rw [h.count]
  rcases h.ending with ⟨-, htaken, -, -⟩ | ⟨-, last, f, -, -, htaken, -⟩
  · rw [htaken, List.take_length]
  · rw [htaken, List.take_left]

/-- Nothing is taken that was not offered. -/
theorem mem_of_mem_takenBy {turns : List Turn} {calls : List Offer}
    (hcalls : turns.map Turn.offer <+: calls) {f : Frame × UInt64} (hf : f ∈ takenBy turns) :
    ∃ offer ∈ calls, f.1 ∈ offer.batch := by
  obtain ⟨t, ht, hf⟩ := List.mem_flatMap.mp hf
  obtain ⟨g, hg, rfl⟩ := List.mem_map.mp hf
  exact ⟨t.offer, hcalls.subset (List.mem_map_of_mem ht), List.mem_of_mem_take hg⟩

/-- What a run leaves behind the frames written is no frame. -/
theorem run_transmitted (w : Writer) (hnew : w.accepted = []) (calls : List Offer)
    (hmax : ∀ call ∈ calls, ∀ f ∈ call.batch, f.samples.length * 2 ≤ maxPayload) :
    ∃ written torn, Transmitted w calls (run { writer := w } calls).1 (run { writer := w } calls).2
      written torn ∧ (∀ f ∈ written, f.1.samples.length * 2 ≤ maxPayload) ∧
      StreamSource.Barren torn := by
  obtain ⟨hmade, hdrops⟩ := run_made { writer := w } calls
  have hcalls := hmade.calls
  have hran := run_ran { writer := w } calls
  have hfits : ∀ f ∈ takenBy (run { writer := w } calls).1,
      f.1.samples.length * 2 ≤ maxPayload := by
    intro f hf
    obtain ⟨call, hcall, hmem⟩ := mem_of_mem_takenBy hcalls.1 hf
    exact hmax call hcall f.1 hmem
  clear hmade
  generalize run { writer := w } calls = done at hcalls hdrops hran hfits ⊢
  cases hran with
  | all passed empty view accepted count =>
    refine ⟨_, [], ⟨hcalls, hdrops, view, ?_, ?_, .inl ⟨passed, rfl, empty, rfl⟩⟩, hfits,
      StreamSource.barren_of_short (by decide)⟩
    · rw [count, Nat.zero_add]
    · rw [accepted, hnew, List.nil_append, List.append_nil]
  | torn turns written f refused failed taken view torn accepted count =>
    rw [taken] at hfits
    refine ⟨written, _, ⟨hcalls, hdrops, view, ?_, ?_, .inr ⟨refused, _, f, ?_, failed, taken, torn⟩⟩,
      fun g hg => hfits g (List.mem_append_left _ hg),
      StreamSource.barren_of_torn (hfits f (by simp)) torn⟩
    · rw [count, Nat.zero_add]
    · rw [accepted, hnew, List.nil_append]
    · exact List.getLast?_concat

/-- **From sink to source.** Whatever the writer does, it accepts the frames counted as written,
each with the drops counted when its call began, and behind them at most a part of the frame whose
writing failed. A source that is given these bytes returns exactly the frames written, and skips
nothing. -/
theorem run_transmits (w : Writer) (hnew : w.accepted = []) (calls : List Offer)
    (hmax : ∀ call ∈ calls, ∀ f ∈ call.batch, f.samples.length * 2 ≤ maxPayload) :
    let done := run { writer := w } calls
    ∃ written torn, Transmitted w calls done.1 done.2 written torn ∧
      ∀ r, Delivers done.2.writer.accepted 0 r → ∀ channels rate,
        let read := (StreamSource.new r channels rate).drain
        read.answers = written.map (fun f => .ok f.1.toBuffer) ∧
          read.last = .error .endOfStream ∧ read.source.resyncs = 0 := by
  intro done
  obtain ⟨written, torn, hsent, hfits, hbarren⟩ := run_transmitted w hnew calls hmax
  refine ⟨written, torn, hsent, ?_⟩
  intro r hdel channels rate
  rw [hsent.accepted] at hdel
  exact StreamSource.drain_of_frames hfits hbarren rfl rfl hdel

/-- The second call fails one byte before the end of its first frame. -/
theorem run_transmits_torn :
    let frame := Frame.zeros 1 1
    let calls : List Offer := [⟨[⟨0, 3⟩], [frame]⟩, ⟨[⟨0, 5⟩], [frame, frame]⟩]
    let w : Writer :=
      { writes := [some .interrupted, none, none, none, some .failed], sizes := [10, 0, 65] }
    let done := run { writer := w } calls
    let read := (StreamSource.new [.data done.2.writer.accepted] 1 .zero).drain
    done.1.map (·.left.length) = [0, 1] ∧ done.2.framesWritten = 1 ∧
      done.2.writer.accepted = encodeFrame frame 3 ++ (encodeFrame frame 5).take 65 ∧
      read.answers = [.ok frame.toBuffer] ∧ read.last = .error .endOfStream ∧
      read.source.resyncs = 0 := by
  intro frame calls w done read
  have hmax : ∀ call ∈ calls, ∀ f ∈ call.batch, f.samples.length * 2 ≤ maxPayload := by
    intro call hcall f hf
    have hframe : f = frame := by
      simp only [calls, List.mem_cons, List.not_mem_nil, or_false] at hcall
      rcases hcall with rfl | rfl <;> simpa using hf
    rw [hframe]
    decide
  obtain ⟨written, torn, hsent, hgiven⟩ := run_transmits w rfl calls hmax
  obtain ⟨hblocks, hend, hresyncs⟩ := hgiven _ (.whole _) 1 .zero
  have hcount : done.2.framesWritten = 1 := by decide +kernel
  have hwritten : written.map (fun f => f.1.toBuffer) = [frame.toBuffer] := by
    rw [hsent.written_eq, hcount]
    decide +kernel
  have hread : read.answers = (written.map fun f => f.1.toBuffer).map .ok := by
    rw [List.map_map]
    exact hblocks
  rw [hwritten] at hread
  exact ⟨by decide +kernel, hcount, by decide +kernel, hread, hend, hresyncs⟩

end WireSink

end Oscilloscope
