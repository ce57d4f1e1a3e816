import Oscilloscope.Proofs.Wire.Codec
import Oscilloscope.Proofs.Wire.Delivery

/-!
# Oscilloscope.Proofs.Wire.Resync

Garbage between frames is skipped, unless it aborts the read.

* `Segment` is a frame with the garbage before it, `streamOf` the bytes of some segments with the
  garbage behind the last one.
* `Clean`: at no place in the garbage does an acceptable header begin. The garbage may hold parts
  of the magic, whole magics, and headers that are torn or refused, or whose size overflows.
* `beforeOverflow`: the segments in front of the first gap with such a size.
* `StreamSource.read_of_located`, `StreamSource.read_of_nothing` and
  `StreamSource.read_of_overflowing`: one read without stalls, with what it adds to the count of
  skips.
* `StreamSource.drain_clean`: exactly the frames are read, and the gaps are counted, if no size
  overflows. If one does, exactly the frames in front of it are read.
* `StreamSource.drain_loses_frame`: garbage that takes a frame with it.
-/

namespace Oscilloscope
namespace Wire

/-! ## Streams with garbage -/

/-- A frame, as sent by a producer that has dropped `drops` samples, with the bytes before it. -/
structure Segment where
  gap : List UInt8
  frame : Frame
  drops : UInt64

def streamOf : List Segment → List UInt8 → List UInt8
  | [], last => last
  | s :: rest, last => s.gap ++ (encodeFrame s.frame s.drops ++ streamOf rest last)

/-- The 64 bytes at offset `i` of `gap`, followed by `rest`. -/
def windowAt (gap rest : List UInt8) (i : Nat) : List UInt8 :=
  ((gap ++ rest).drop i).take headerLength

/-- At no offset of `gap`, followed by `rest`, do 64 bytes begin that are an acceptable header. -/
def Quiet (gap rest : List UInt8) : Prop :=
  ∀ i < gap.length, (Header.decode (windowAt gap rest i)).isOk = false

/-- At some offset of `gap`, followed by `rest`, 64 bytes begin as a header whose size overflows. -/
def Overflowing (gap rest : List UInt8) : Prop :=
  ∃ i < gap.length, (Header.decode (windowAt gap rest i)).isOverflow = true

instance (gap rest : List UInt8) : Decidable (Overflowing gap rest) :=
  decidable_of_iff (∃ i : Fin gap.length, (Header.decode (windowAt gap rest i)).isOverflow = true)
    ⟨fun ⟨i, h⟩ => ⟨i, i.isLt, h⟩, fun ⟨i, hi, h⟩ => ⟨⟨i, hi⟩, h⟩⟩

/-- The gaps are quiet, and no payload is too long. -/
def Clean : List Segment → List UInt8 → Prop
  | [], last => Quiet last []
  | s :: rest, last =>
    Quiet s.gap (encodeFrame s.frame s.drops ++ streamOf rest last) ∧
      s.frame.samples.length * 2 ≤ maxPayload ∧ Clean rest last

/-- The segments in front of the first gap in which a size overflows, if there is such a gap. -/
def beforeOverflow : List Segment → List UInt8 → Option (List Segment)
  | [], last => if Overflowing last [] then some [] else none
  | s :: rest, last =>
    if Overflowing s.gap (encodeFrame s.frame s.drops ++ streamOf rest last) then some []
    else (beforeOverflow rest last).map (s :: ·)

section Gap

variable {gap rest : List UInt8}

theorem Quiet.refuses (h : Quiet gap rest) (hnone : ¬Overflowing gap rest) {i : Nat}
    (hi : i < gap.length) : Header.refuses ((gap ++ rest).drop i) = true := by
  have hok := h i hi
  have hover := Bool.eq_false_iff.mpr fun hthere => hnone ⟨i, hi, hthere⟩
  rw [windowAt, Header.decode_take] at hok hover
  exact Header.refuses_of_neither hok hover

theorem Quiet.locate (h : Quiet gap rest) (hnone : ¬Overflowing gap rest) :
    locate (gap ++ rest) = locate rest := locate_gap fun _ hi => h.refuses hnone hi

theorem Quiet.locate_overflow (h : Quiet gap rest) (hover : Overflowing gap rest) :
    Wire.locate (gap ++ rest) = .overflow := by
  obtain ⟨i, hi, hthere⟩ := hover
  rw [windowAt, Header.decode_take] at hthere
  refine locate_gap_overflow ?_ ⟨i, hi, hthere⟩
  intro i hi
  have hok := h i hi
  rwa [windowAt, Header.decode_take] at hok

/-- In front of a header, every gap that is not empty has to be passed. -/
theorem Quiet.gapped (h : Quiet gap rest) (hnone : ¬Overflowing gap rest) {header : Header}
    (hrest : Header.decode rest = .ok header) : gapped (gap ++ rest) = !gap.isEmpty := by
  cases gap with
  | nil => exact gapped_of_ok hrest
  | cons b gap =>
    have hlen := (Header.decode_ok hrest).1
    have hlen' : headerLength ≤ (b :: gap ++ rest).length := by
      rw [List.length_append]
      omega
    have hhere : Header.refuses (b :: gap ++ rest) = true := h.refuses hnone (Nat.zero_lt_succ _)
    rw [Wire.gapped, decide_eq_true hlen', hhere]
    rfl

end Gap

theorem block_ofFrame (f : Frame) (drops : UInt64) :
    StreamSource.block (Header.ofFrame f drops) (encodeSamples f.samples) = f.toBuffer := by
  rw [StreamSource.block, decodeSamples_encodeSamples]
  rfl

namespace StreamSource

/-! ## Reads without stalls -/

section Read

variable {s : StreamSource} {bytes : List UInt8}

theorem searched_of_empty (hempty : s.buffered = []) (hdel : Delivers bytes 0 s.reader) :
    Searched bytes false 0 (scan s.buffered s.reader false) := by
  have hlen : s.buffered.length ≤ headerLength := by
    rw [hempty]
    exact Nat.zero_le _
  have hsearched : Searched (s.buffered ++ bytes) false 0 _ := searched_of_delivers hdel hlen
  rwa [hempty, List.nil_append, ← hempty] at hsearched

/-- A read that finds a header goes on to its payload. It costs a skip if the header was not there
at once. -/
theorem loaded_of_located {h : Header} {rest : List UInt8} (idle : s.pending = none)
    (hempty : s.buffered = []) (hdel : Delivers bytes 0 s.reader)
    (hloc : locate bytes = .header h rest) :
    ∃ s₁, Loaded s₁ h rest 0 s.read ∧ s₁.buffered = [] ∧
      s₁.resyncs = s.resyncs + UInt64.ofNat (gapped bytes).toNat := by
  have hsearched := searched_of_empty hempty hdel
  generalize hscan : scan s.buffered s.reader false = found at hsearched
  cases hsearched with
  | ended located =>
    rw [located] at hloc
    cases hloc
  | overflow located later =>
    rw [located] at hloc
    cases hloc
  | @found _ r h' rest' located later =>
    rw [located] at hloc
    cases hloc
    have hsearch : s.searched = { s with
        reader := r
        buffered := []
        resyncs := if gapped bytes then s.resyncs + 1 else s.resyncs } := by
      rw [searched, hscan]
      rfl
    have hload : Loaded s.searched h ([] ++ rest) 0 (s.searched.readPayload h []) := by
      refine loaded_of_delivers ?_ (Nat.zero_le _)
      rwa [hsearch]
    rw [read_of_found idle (by rw [hscan])]
    refine ⟨s.searched, hload, ?_, ?_⟩
    · rw [hsearch]
    · rw [hsearch]
      cases gapped bytes <;> simp

/-- A header with its payload gives a block. -/
theorem read_of_located {h : Header} {rest : List UInt8} (idle : s.pending = none)
    (hempty : s.buffered = []) (hdel : Delivers bytes 0 s.reader)
    (hloc : locate bytes = .header h rest) (henough : h.payload.toNat ≤ rest.length) :
    ∃ s', s.read = (.ok (block h (rest.take h.payload.toNat)), s') ∧ s'.pending = none ∧
      s'.buffered = [] ∧ Delivers (rest.drop h.payload.toNat) 0 s'.reader ∧
      s'.resyncs = s.resyncs + UInt64.ofNat (gapped bytes).toNat := by
  obtain ⟨s₁, hload, hbuffered, hresyncs⟩ := loaded_of_located idle hempty hdel hloc
  generalize s.read = p at hload
  cases hload with
  | ended short => exact absurd henough (Nat.not_le.mpr short)
  | complete later enough => exact ⟨_, rfl, rfl, hbuffered, later, hresyncs⟩

/-- A header whose payload is cut off gives no block: the end is reported. -/
theorem read_of_cut {h : Header} {rest : List UInt8} (idle : s.pending = none)
    (hempty : s.buffered = []) (hdel : Delivers bytes 0 s.reader)
    (hloc : locate bytes = .header h rest) (hshort : rest.length < h.payload.toNat) :
    ∃ s', s.read = (.error .endOfStream, s') ∧
      s'.resyncs = s.resyncs + UInt64.ofNat (gapped bytes).toNat := by
  obtain ⟨s₁, hload, -, hresyncs⟩ := loaded_of_located idle hempty hdel hloc
  generalize s.read = p at hload
  cases hload with
  | ended short => exact ⟨_, rfl, hresyncs⟩
  | complete later enough => exact absurd enough (Nat.not_le.mpr hshort)

/-- Without a header the end is reported. That costs a skip if there were bytes for a header. -/
theorem read_of_nothing (idle : s.pending = none) (hempty : s.buffered = [])
    (hdel : Delivers bytes 0 s.reader) (hloc : locate bytes = .nothing) :
    ∃ s', s.read = (.error .endOfStream, s') ∧
      s'.resyncs = s.resyncs + if headerLength ≤ bytes.length then 1 else 0 := by
  have hsearched := searched_of_empty hempty hdel
  generalize hscan : scan s.buffered s.reader false = found at hsearched
  cases hsearched with
  | found located later =>
    rw [located] at hloc
    cases hloc
  | overflow located later =>
    rw [located] at hloc
    cases hloc
  | ended located =>
    refine ⟨_, read_of_broken idle (by rw [hscan]), ?_⟩
    rw [searched, hscan, gapped_of_nothing located]
    by_cases hlen : headerLength ≤ bytes.length
    · simp [hlen]
    · simp [hlen]

/-- Where a size overflows before there is a header, the read aborts. -/
theorem read_of_overflowing (idle : s.pending = none) (hempty : s.buffered = [])
    (hdel : Delivers bytes 0 s.reader) (hloc : locate bytes = .overflow) :
    ∃ s', s.read = (.overflow, s') := by
  have hsearched := searched_of_empty hempty hdel
  generalize hscan : scan s.buffered s.reader false = found at hsearched
  cases hsearched with
  | found located later =>
    rw [located] at hloc
    cases hloc
  | ended located =>
    rw [located] at hloc
    cases hloc
  | overflow located later => exact ⟨_, read_of_overflow idle (by rw [hscan])⟩

/-- A frame behind a quiet gap is read with one read, which takes the gap, the header and exactly
the payload. -/
theorem read_of_quiet {gap rest : List UInt8} {f : Frame} {drops : UInt64}
    (hquiet : Quiet gap (encodeFrame f drops ++ rest))
    (hnone : ¬Overflowing gap (encodeFrame f drops ++ rest))
    (hmax : f.samples.length * 2 ≤ maxPayload) (idle : s.pending = none)
    (hempty : s.buffered = []) (hdel : Delivers (gap ++ (encodeFrame f drops ++ rest)) 0 s.reader) :
    ∃ s', s.read = (.ok f.toBuffer, s') ∧ s'.pending = none ∧ s'.buffered = [] ∧
      Delivers rest 0 s'.reader ∧ s'.resyncs = s.resyncs + if gap.isEmpty then 0 else 1 := by
  have hdecode := decode_encodeFrame hmax drops rest
  have hpayload := payload_ofFrame hmax drops
  have hloc : locate (gap ++ (encodeFrame f drops ++ rest)) =
      .header (Header.ofFrame f drops) (encodeSamples f.samples ++ rest) := by
    rw [hquiet.locate hnone, locate_of_ok hdecode, drop_encodeFrame]
  have henough : (Header.ofFrame f drops).payload.toNat ≤
      (encodeSamples f.samples ++ rest).length := by
    rw [hpayload, List.length_append]
    exact Nat.le_add_right _ _
  obtain ⟨s', hread, hidle', hempty', hdel', hresyncs⟩ :=
    read_of_located idle hempty hdel hloc henough
  rw [List.drop_left' hpayload.symm] at hdel'
  rw [List.take_left' hpayload.symm, block_ofFrame] at hread
  rw [hquiet.gapped hnone hdecode] at hresyncs
  refine ⟨s', hread, hidle', hempty', hdel', ?_⟩
  rw [hresyncs]
  cases gap.isEmpty <;> rfl

end Read

/-! ## The whole stream -/

/-- How often bytes have to be skipped: for every gap, and for a rest as long as a header. -/
def skipsOf (segments : List Segment) (last : List UInt8) : Nat :=
  segments.countP (fun s => !s.gap.isEmpty) + if headerLength ≤ last.length then 1 else 0

theorem skipsOf_cons (segment : Segment) (rest : List Segment) (last : List UInt8) :
    skipsOf (segment :: rest) last =
      skipsOf rest last + if segment.gap.isEmpty then 0 else 1 := by
  cases hgap : segment.gap.isEmpty with
  | true => simp [skipsOf, hgap]
  | false =>
    simp only [skipsOf, List.countP_cons, hgap]
    simp only [Bool.not_false, if_true, Bool.false_eq_true, if_false]
    omega

theorem drain_of_clean {segments : List Segment} {last : List UInt8} {s : StreamSource}
    (hclean : Clean segments last) (hnone : beforeOverflow segments last = none)
    (idle : s.pending = none) (hempty : s.buffered = [])
    (hdel : Delivers (streamOf segments last) 0 s.reader) :
    s.drain.answers = segments.map (fun segment => .ok segment.frame.toBuffer) ∧
      s.drain.last = .error .endOfStream ∧
      s.drain.source.resyncs = s.resyncs + UInt64.ofNat (skipsOf segments last) := by
  induction segments generalizing s with
  | nil =>
    have hquiet : Quiet last [] := hclean
    have hover : ¬Overflowing last [] := by
      intro hover
      rw [beforeOverflow, if_pos hover] at hnone
      cases hnone
    have hloc := hquiet.locate hover
    rw [List.append_nil] at hloc
    have hdel' : Delivers last 0 s.reader := hdel
    obtain ⟨s', hread, hresyncs⟩ := read_of_nothing idle hempty hdel' hloc
    rw [drain_of_end hread rfl]
    refine ⟨rfl, rfl, ?_⟩
    rw [hresyncs]
    by_cases hlen : headerLength ≤ last.length
    · simp [skipsOf, hlen]
    · simp [skipsOf, hlen]
  | cons segment rest ih =>
    obtain ⟨gap, frame, drops⟩ := segment
    obtain ⟨hquiet, hmax, hrest⟩ := hclean
    rw [beforeOverflow] at hnone
    split at hnone
    · cases hnone
    · rename_i hover
      obtain ⟨s', hread, hidle', hempty', hdel', hresyncs⟩ :=
        read_of_quiet hquiet hover hmax idle hempty hdel
      obtain ⟨hblocks, hlast, hcount⟩ :=
        ih hrest (Option.map_eq_none_iff.mp hnone) hidle' hempty' hdel'
      rw [drain_of_result hread rfl]
      refine ⟨?_, hlast, ?_⟩
      · rw [Drained.cons, hblocks, List.map_cons]
      · rw [Drained.cons, hcount, hresyncs, skipsOf_cons, UInt64.ofNat_add, UInt64.add_assoc,
          UInt64.add_comm (UInt64.ofNat _)]
        cases gap.isEmpty <;> rfl

theorem drain_of_overflowing {segments before : List Segment} {last : List UInt8}
    {s : StreamSource} (hclean : Clean segments last)
    (hbefore : beforeOverflow segments last = some before) (idle : s.pending = none)
    (hempty : s.buffered = []) (hdel : Delivers (streamOf segments last) 0 s.reader) :
    s.drain.answers = before.map (fun segment => .ok segment.frame.toBuffer) ∧
      s.drain.last = .overflow := by
  induction segments generalizing s before with
  | nil =>
    have hquiet : Quiet last [] := hclean
    rw [beforeOverflow] at hbefore
    split at hbefore
    · rename_i hover
      cases hbefore
      have hloc := hquiet.locate_overflow hover
      rw [List.append_nil] at hloc
      have hdel' : Delivers last 0 s.reader := hdel
      obtain ⟨s', hread⟩ := read_of_overflowing idle hempty hdel' hloc
      rw [drain_of_end hread rfl]
      exact ⟨rfl, rfl⟩
    · cases hbefore
  | cons segment rest ih =>
    obtain ⟨gap, frame, drops⟩ := segment
    obtain ⟨hquiet, hmax, hrest⟩ := hclean
    rw [beforeOverflow] at hbefore
    split at hbefore
    · rename_i hover
      cases hbefore
      obtain ⟨s', hread⟩ :=
        read_of_overflowing idle hempty hdel (hquiet.locate_overflow hover)
      rw [drain_of_end hread rfl]
      exact ⟨rfl, rfl⟩
    · rename_i hover
      obtain ⟨before', hbefore', rfl⟩ := Option.map_eq_some_iff.mp hbefore
      obtain ⟨s', hread, hidle', hempty', hdel', -⟩ :=
        read_of_quiet hquiet hover hmax idle hempty hdel
      obtain ⟨hblocks, hlast⟩ := ih hrest hbefore' hidle' hempty' hdel'
      rw [drain_of_result hread rfl]
      exact ⟨by rw [Drained.cons, hblocks, List.map_cons], hlast⟩

/-- **Resynchronization.** Suppose that no header begins in the garbage between frames. If no size
overflows there either, exactly the frames are read, in order, and then the end is reported; the
skips counted are the gaps before frames and a rest that is at least as long as a header. Otherwise
exactly the frames in front of the first gap with an overflow are read, and then the read aborts. -/
theorem drain_clean {segments : List Segment} {last : List UInt8} {r : Reader}
    (hclean : Clean segments last) (hdel : Delivers (streamOf segments last) 0 r)
    (channels : UInt32) (rate : Double) :
    let done := (new r channels rate).drain
    (beforeOverflow segments last = none →
      done.answers = segments.map (fun segment => .ok segment.frame.toBuffer) ∧
      done.last = .error .endOfStream ∧
      done.source.resyncs = UInt64.ofNat (segments.countP (fun segment => !segment.gap.isEmpty) +
        if headerLength ≤ last.length then 1 else 0)) ∧
    (∀ before, beforeOverflow segments last = some before →
      done.answers = before.map (fun segment => .ok segment.frame.toBuffer) ∧
      done.last = .overflow) := by
  intro done
  refine ⟨?_, ?_⟩
  · intro hnone
    obtain ⟨hblocks, hlast, hcount⟩ :=
      drain_of_clean hclean hnone (s := new r channels rate) rfl rfl hdel
    refine ⟨hblocks, hlast, ?_⟩
    have hzero : (new r channels rate).resyncs = 0 := rfl
    rw [hcount, hzero, UInt64.zero_add, skipsOf]
  · intro before hbefore
    exact drain_of_overflowing hclean hbefore rfl rfl hdel

/-- Half a magic before a frame, nothing before the next one, a whole magic at the end. -/
theorem drain_clean_torn :
    let frame := Frame.zeros 1 1
    let segments : List Segment := [⟨[0x47, 0x46], frame, 0⟩, ⟨[], frame, 3⟩]
    let done := (new [.data (streamOf segments [0x47, 0x46, 0x48, 0x32])] 1 .zero).drain
    done.answers = [.ok frame.toBuffer, .ok frame.toBuffer] ∧ done.last = .error .endOfStream ∧
      done.source.resyncs = 1 := by
  intro frame segments done
  have hclean : Clean segments [0x47, 0x46, 0x48, 0x32] := by
    refine ⟨?_, ?_, ?_, ?_, ?_⟩
    · unfold Quiet
      decide
    · decide
    · unfold Quiet
      decide
    · decide
    · unfold Clean Quiet
      decide
  exact (drain_clean hclean (.whole _) 1 .zero).1 (by decide)

/-- 64 bytes that begin as a header of `2 ^ 32 - 1` channels with as many samples each. -/
def greedy : List UInt8 :=
  littleEndian 4 magic.toNat ++ littleEndian 4 headerLength ++ List.replicate 16 0 ++
    List.replicate 8 0xFF ++ List.replicate 32 0

/-- **A lost frame.** No header begins in this garbage in front of a frame, and the frame is not
read. -/
theorem drain_loses_frame :
    let segments : List Segment := [⟨greedy, Frame.zeros 1 1, 0⟩]
    let done := (new [.data (streamOf segments [])] 1 .zero).drain
    Clean segments [] ∧ done.answers = [] ∧ done.last = .overflow := by
  intro segments done
  have hclean : Clean segments [] := by
    refine ⟨?_, ?_, ?_⟩
    · unfold Quiet
      decide +kernel
    · decide
    · unfold Clean Quiet
      decide
  have hover : Overflowing greedy (encodeFrame (Frame.zeros 1 1) 0 ++ streamOf [] []) := by
    decide +kernel
  have hbefore : beforeOverflow segments [] = some [] := if_pos hover
  exact ⟨hclean, drain_of_overflowing hclean hbefore rfl rfl (.whole _)⟩

end StreamSource

end Wire
end Oscilloscope
