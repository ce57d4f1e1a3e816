import Oscilloscope.Proofs.Wire.Drain
import Oscilloscope.Proofs.Wire.Frames

/-!
# Oscilloscope.Proofs.Wire.Delivery

What is read from a stream does not depend on how the stream is cut.

* `Delivers bytes stalls r`: reader `r` hands out `bytes` in some pieces, with `stalls` moments
  without data in between, and then ends. Interrupted reads do not count.
* `Filled`, `Searched`, `StreamSource.Loaded`: an attempt to read, a search for a header and the
  reading of a payload succeed, stall, or meet the end; a search may also abort. A stall keeps all
  that matters: the next header and the frames to come are the same after it.
* `Awaits s contents stalls`: what a source has yet to deliver, whatever it has buffered.
* `StreamSource.drain_cut`: two readers of the same bytes give the same blocks.
-/

namespace Oscilloscope
namespace Wire

/-- The reader hands out `bytes` in order, in any pieces, stalls `stalls` times, and ends. -/
inductive Delivers : List UInt8 → Nat → Reader → Prop where
  | nil : Delivers [] 0 []
  | endOfFile (rest : Reader) : Delivers [] 0 (.endOfFile :: rest)
  | data (piece : List UInt8) {bytes : List UInt8} {stalls : Nat} {rest : Reader}
      (later : Delivers bytes stalls rest) : Delivers (piece ++ bytes) stalls (.data piece :: rest)
  | interrupted (reason : String) {bytes : List UInt8} {stalls : Nat} {rest : Reader}
      (later : Delivers bytes stalls rest) :
      Delivers bytes stalls (.fault .interrupted reason :: rest)
  | stall (reason : String) {bytes : List UInt8} {stalls : Nat} {rest : Reader}
      (later : Delivers bytes stalls rest) :
      Delivers bytes (stalls + 1) (.fault .wouldBlock reason :: rest)

theorem Delivers.whole (bytes : List UInt8) : Delivers bytes 0 [.data bytes] := by
  have h := Delivers.data bytes .nil
  rwa [List.append_nil] at h

/-! ## One attempt to read -/

/-- How an attempt to have `need` of the bytes `whole` can end: it completes, stalls with what it
has got, or meets the end. -/
inductive Filled (need : Nat) (whole : List UInt8) :
    Nat → FillOutcome × List UInt8 × Reader → Prop where
  | complete {stalls : Nat} {r : Reader} (later : Delivers (whole.drop need) stalls r)
      (enough : need ≤ whole.length) : Filled need whole stalls (.complete, whole.take need, r)
  | stalled {stalls : Nat} {r : Reader} {reason : String} {got bytes : List UInt8}
      (later : Delivers bytes stalls r) (same : got ++ bytes = whole) (short : got.length < need) :
      Filled need whole (stalls + 1) (.fault .wouldBlock reason, got, r)
  | ended {r : Reader} (short : whole.length < need) : Filled need whole 0 (.ended, whole, r)

section Fill

variable {need : Nat} {got bytes : List UInt8} {stalls : Nat} {r : Reader}

/-- Nothing is read when the bytes are there already. -/
theorem filled_of_full (hdel : Delivers bytes stalls r) (hgot : got.length = need) :
    Filled need (got ++ bytes) stalls (r.fill need got) := by
  have hfill : r.fill need got = (.complete, got, r) := by
    cases r with
    | nil => simp only [Reader.fill, if_pos (Nat.le_of_eq hgot.symm)]
    | cons event rest => simp only [Reader.fill, if_pos (Nat.le_of_eq hgot.symm)]
  have hlater : Delivers ((got ++ bytes).drop need) stalls r := by rwa [List.drop_left' hgot]
  have henough : need ≤ (got ++ bytes).length := by
    rw [List.length_append]
    omega
  have hfilled := Filled.complete hlater henough
  rwa [List.take_left' hgot, ← hfill] at hfilled

/-- A piece that is longer than what is missing is cut. -/
theorem filled_of_cut {piece : List UInt8} (later : Delivers bytes stalls r)
    (hgot : got.length < need) (hcut : need - got.length < piece.length) :
    Filled need (got ++ (piece ++ bytes)) stalls
      (.complete, got ++ piece.take (need - got.length),
        .data (piece.drop (need - got.length)) :: r) := by
  have htake : (got ++ (piece ++ bytes)).take need = got ++ piece.take (need - got.length) := by
    rw [List.take_append, List.take_of_length_le (Nat.le_of_lt hgot),
      List.take_append_of_le_length (Nat.le_of_lt hcut)]
  have hdrop : (got ++ (piece ++ bytes)).drop need = piece.drop (need - got.length) ++ bytes := by
    rw [List.drop_append, List.drop_eq_nil_of_le (Nat.le_of_lt hgot), List.nil_append,
      List.drop_append_of_le_length (Nat.le_of_lt hcut)]
  have henough : need ≤ (got ++ (piece ++ bytes)).length := by
    simp only [List.length_append]
    omega
  rw [← htake]
  refine .complete ?_ henough
  rw [hdrop]
  exact .data _ later

theorem filled_of_delivers (hdel : Delivers bytes stalls r) (hgot : got.length ≤ need) :
    Filled need (got ++ bytes) stalls (r.fill need got) := by
  -- In every case nothing is read if the bytes are there already.
  induction hdel generalizing got with
  | nil =>
    by_cases hfull : got.length = need
    · exact filled_of_full .nil hfull
    · rw [List.append_nil, Reader.fill, if_neg (by omega)]
      exact .ended (by omega)
  | endOfFile rest =>
    by_cases hfull : got.length = need
    · exact filled_of_full (.endOfFile rest) hfull
    · rw [List.append_nil, Reader.fill, if_neg (by omega)]
      exact .ended (by omega)
  | @data piece bytes stalls rest later ih =>
    by_cases hfull : got.length = need
    · exact filled_of_full (.data piece later) hfull
    · rw [Reader.fill, if_neg (by omega)]
      dsimp only
      split
      · rename_i hcut
        exact filled_of_cut later (by omega) hcut
      · rename_i hcut
        rw [← List.append_assoc]
        apply ih
        rw [List.length_append]
        omega
  | interrupted reason later ih =>
    by_cases hfull : got.length = need
    · exact filled_of_full (.interrupted reason later) hfull
    · rw [Reader.fill, if_neg (by omega)]
      exact ih hgot
  | stall reason later ih =>
    by_cases hfull : got.length = need
    · exact filled_of_full (.stall reason later) hfull
    · rw [Reader.fill, if_neg (by omega)]
      · exact .stalled later rfl (by omega)
      · intro hkind
        cases hkind

end Fill

/-! ## The search for a header -/

section Scan

variable {buffered got : List UInt8} {reader r : Reader} {skipped : Bool}

theorem scan_of_ended (hfill : reader.fill headerLength buffered = (.ended, got, r)) :
    scan buffered reader skipped = ⟨.error .endOfStream, got, r, skipped⟩ := by
  rw [scan]
  split <;> rename_i heq <;> rw [hfill] at heq <;> cases heq
  rfl

theorem scan_of_stalled {reason : String}
    (hfill : reader.fill headerLength buffered = (.fault .wouldBlock reason, got, r)) :
    scan buffered reader skipped = ⟨.error .noData, got, r, skipped⟩ := by
  rw [scan]
  split <;> rename_i heq <;> rw [hfill] at heq <;> cases heq
  · rfl
  · contradiction

theorem scan_of_header {h : Header}
    (hfill : reader.fill headerLength buffered = (.complete, got, r))
    (hdecode : Header.decode got = .ok h) :
    scan buffered reader skipped = ⟨.ok h, [], r, skipped⟩ := by
  rw [scan]
  split <;> rename_i heq <;> rw [hfill] at heq <;> cases heq
  simp only [hdecode]

theorem scan_of_overflow (hfill : reader.fill headerLength buffered = (.complete, got, r))
    (hdecode : Header.decode got = .overflow) :
    scan buffered reader skipped = ⟨.overflow, got, r, skipped⟩ := by
  rw [scan]
  split <;> rename_i heq <;> rw [hfill] at heq <;> cases heq
  simp only [hdecode]

theorem scan_of_garbage {e : WireError}
    (hfill : reader.fill headerLength buffered = (.complete, got, r))
    (hdecode : Header.decode got = .error e) :
    scan buffered reader skipped = scan (skipToMagic got) r true := by
  rw [scan]
  split <;> rename_i heq <;> rw [hfill] at heq <;> cases heq
  simp only [hdecode]

end Scan

/-- How a search in the bytes `whole` can end: with the first header, at an overflow, at the end if
there is neither, or in a stall, which leaves what is to be found. `skipped` says whether bytes have
been passed before; a stall comes before the search has passed any itself, or after. -/
inductive Searched (whole : List UInt8) (skipped : Bool) : Nat → Scan → Prop where
  | found {stalls : Nat} {r : Reader} {h : Header} {bytes : List UInt8}
      (located : locate whole = .header h bytes) (later : Delivers bytes stalls r) :
      Searched whole skipped stalls ⟨.ok h, [], r, skipped || gapped whole⟩
  | overflow {stalls : Nat} {r : Reader} {buffered bytes : List UInt8}
      (located : locate whole = .overflow) (later : Delivers bytes stalls r) :
      Searched whole skipped stalls ⟨.overflow, buffered, r, skipped || gapped whole⟩
  | ended {r : Reader} {buffered : List UInt8} (located : locate whole = .nothing) :
      Searched whole skipped 0 ⟨.error .endOfStream, buffered, r, skipped || gapped whole⟩
  | paused {stalls : Nat} {r : Reader} {buffered bytes : List UInt8}
      (later : Delivers bytes stalls r) (same : buffered ++ bytes = whole)
      (short : buffered.length < headerLength) :
      Searched whole skipped (stalls + 1) ⟨.error .noData, buffered, r, skipped⟩
  | stalled {stalls : Nat} {r : Reader} {buffered bytes : List UInt8}
      (later : Delivers bytes stalls r) (same : locate (buffered ++ bytes) = locate whole)
      (short : buffered.length < headerLength) (gap : gapped whole = true) :
      Searched whole skipped (stalls + 1) ⟨.error .noData, buffered, r, true⟩

/-- A search that goes on behind refused bytes is one that has passed them itself. -/
theorem Searched.of_skipped {whole whole' : List UInt8} {skipped : Bool} {stalls : Nat} {s : Scan}
    (h : Searched whole' true stalls s) (hsame : locate whole' = locate whole)
    (hgap : gapped whole = true) : Searched whole skipped stalls s := by
  cases h with
  | found located later =>
    have hfound : Searched whole skipped _ _ := .found (hsame ▸ located) later
    rwa [hgap, Bool.or_true] at hfound
  | @overflow _ r buffered bytes located later =>
    have hover : Searched whole skipped _ ⟨_, buffered, r, _⟩ := .overflow (hsame ▸ located) later
    rwa [hgap, Bool.or_true] at hover
  | @ended r buffered located =>
    have hended : Searched whole skipped 0 ⟨_, buffered, r, _⟩ := .ended (hsame ▸ located)
    rwa [hgap, Bool.or_true] at hended
  | paused later same short => exact .stalled later (by rw [same, hsame]) short hgap
  | stalled later same short gap => exact .stalled later (same.trans hsame) short hgap

/-- Where the bytes of a header are refused, a search passes them, and skipping to the next possible
magic passes no header. -/
theorem locate_of_refused {whole : List UInt8} {e : WireError}
    (enough : headerLength ≤ whole.length) (hdecode : Header.decode whole = .error e) :
    gapped whole = true ∧
      locate (skipToMagic (whole.take headerLength) ++ whole.drop headerLength) = locate whole ∧
      (skipToMagic (whole.take headerLength)).length < headerLength := by
  have hlength : (whole.take headerLength).length = headerLength := by
    rw [List.length_take, Nat.min_eq_left enough]
  have hwindow : headerLength ≤ (whole.take headerLength).length := Nat.le_of_eq hlength.symm
  have hno : Header.refuses (whole.take headerLength) = true := by
    apply Header.refuses_of_error
    rw [Header.decode_take, hdecode]
  refine ⟨?_, ?_, ?_⟩
  · rw [gapped, decide_eq_true enough, Header.refuses_of_error hdecode, Bool.and_true]
  · rw [locate_skipToMagic hwindow hno, List.take_append_drop]
  · have hshort := weight_skipToMagic hwindow
    rwa [hlength] at hshort

theorem searched_of_delivers {buffered bytes : List UInt8} {stalls : Nat} {reader : Reader}
    {skipped : Bool} (hdel : Delivers bytes stalls reader)
    (hlen : buffered.length ≤ headerLength) :
    Searched (buffered ++ bytes) skipped stalls (scan buffered reader skipped) := by
  -- By the number of bytes left, which a skip makes smaller.
  induction hk : buffered.length + bytes.length using Nat.strongRecOn
    generalizing buffered bytes stalls reader skipped with
  | ind k ih =>
    have hfilled := filled_of_delivers hdel hlen
    generalize hfill : reader.fill headerLength buffered = p at hfilled
    cases hfilled with
    | complete later enough =>
      have hwindow := Header.decode_take (buffered ++ bytes)
      cases hdecode : Header.decode (buffered ++ bytes) with
      | ok h =>
        rw [scan_of_header hfill (hwindow.trans hdecode)]
        have hfound : Searched (buffered ++ bytes) skipped _ _ :=
          .found (locate_of_ok hdecode) later
        rwa [gapped_of_ok hdecode, Bool.or_false] at hfound
      | overflow =>
        rw [scan_of_overflow hfill (hwindow.trans hdecode)]
        have hover : Searched (buffered ++ bytes) skipped _
            ⟨_, (buffered ++ bytes).take headerLength, _, _⟩ :=
          .overflow (locate_of_overflow hdecode) later
        rwa [gapped_of_overflow hdecode, Bool.or_false] at hover
      | error e =>
        -- What is skipped holds no header, so the first one is still the same.
        rw [scan_of_garbage hfill (hwindow.trans hdecode)]
        obtain ⟨hgap, hsame, hshort⟩ := locate_of_refused enough hdecode
        have hlength := List.length_drop (i := headerLength) (l := buffered ++ bytes)
        rw [List.length_append] at hlength enough
        refine Searched.of_skipped ?_ hsame hgap
        exact ih _ (by omega) later (by omega) rfl
    | stalled later same short =>
      rw [scan_of_stalled hfill]
      exact .paused later same short
    | @ended r short =>
      rw [scan_of_ended hfill]
      have hnothing := locate_of_length_lt short
      have hended : Searched (buffered ++ bytes) skipped 0 ⟨_, buffered ++ bytes, r, _⟩ :=
        .ended hnothing
      rwa [gapped_of_nothing hnothing, decide_eq_false (Nat.not_le.mpr short), Bool.or_false]
        at hended

namespace StreamSource

/-! ## The payload -/

/-- How the reading of the payload of `h` can end, when the bytes from its beginning on are
`whole`. -/
inductive Loaded (s : StreamSource) (h : Header) (whole : List UInt8) :
    Nat → Outcome ReadError Buffer × StreamSource → Prop where
  | complete {stalls : Nat} {r : Reader} (later : Delivers (whole.drop h.payload.toNat) stalls r)
      (enough : h.payload.toNat ≤ whole.length) :
      Loaded s h whole stalls (.ok (block h (whole.take h.payload.toNat)),
        { s with reader := r, pending := none, lastHeader := some h,
                 info := { s.info with channels := h.channels, rate := h.rate } })
  | stalled {stalls : Nat} {r : Reader} {got bytes : List UInt8} (later : Delivers bytes stalls r)
      (same : got ++ bytes = whole) (short : got.length < h.payload.toNat) :
      Loaded s h whole (stalls + 1)
        (.error .noData, { s with reader := r, pending := some (h, got) })
  | ended {r : Reader} (short : whole.length < h.payload.toNat) :
      Loaded s h whole 0 (.error .endOfStream, { s with reader := r, pending := none })

theorem loaded_of_delivers {s : StreamSource} {h : Header} {got bytes : List UInt8}
    {stalls : Nat} (hdel : Delivers bytes stalls s.reader) (hgot : got.length ≤ h.payload.toNat) :
    Loaded s h (got ++ bytes) stalls (s.readPayload h got) := by
  have hfilled := filled_of_delivers hdel hgot
  generalize hfill : s.reader.fill h.payload.toNat got = p at hfilled
  unfold readPayload
  rw [hfill]
  cases hfilled with
  | complete later enough => exact .complete later enough
  | stalled later same short => exact .stalled later same short
  | ended short => exact .ended short

/-! ## One read -/

/-- What a source has yet to deliver, with so many stalls. Between two frames it is in the bytes
buffered and those to come; within a payload the frame begun comes first. -/
inductive Awaits (s : StreamSource) : Contents → Nat → Prop where
  | between {bytes : List UInt8} {stalls : Nat} (idle : s.pending = none)
      (short : s.buffered.length ≤ headerLength) (later : Delivers bytes stalls s.reader) :
      Awaits s (contentsIn (s.buffered ++ bytes)) stalls
  | within {h : Header} {got bytes : List UInt8} {stalls : Nat}
      (begun : s.pending = some (h, got)) (short : got.length ≤ h.payload.toNat)
      (empty : s.buffered = []) (later : Delivers bytes stalls s.reader) :
      Awaits s (contentsAfter h (got ++ bytes)) stalls

def account (s : StreamSource) : SourceInfo × Option Header := (s.info, s.lastHeader)

/-- What it says after a block with header `h`. -/
def note (a : SourceInfo × Option Header) (h : Header) : SourceInfo × Option Header :=
  ({ a.1 with channels := h.channels, rate := h.rate }, some h)

/-- What a read does with what is awaited: it delivers the first frame, meets a stall, finds that
nothing is left, or aborts where an overflow is left. -/
inductive Advanced (s : StreamSource) :
    Contents → Nat → Outcome ReadError Buffer × StreamSource → Prop where
  | delivered {f : Header × List UInt8} {contents : Contents} {stalls : Nat}
      {s' : StreamSource} (later : Awaits s' contents stalls)
      (account : s'.account = note s.account f.1) :
      Advanced s (contents.cons f) stalls (.ok (block f.1 f.2), s')
  | stalled {contents : Contents} {stalls : Nat} {s' : StreamSource}
      (later : Awaits s' contents stalls) (account : s'.account = s.account) :
      Advanced s contents (stalls + 1) (.error .noData, s')
  | ended {s' : StreamSource} (account : s'.account = s.account) :
      Advanced s .empty 0 (.error .endOfStream, s')
  | aborted {stalls : Nat} {bytes : List UInt8} {s' : StreamSource}
      (later : Delivers bytes stalls s'.reader) (account : s'.account = s.account) :
      Advanced s ⟨[], true⟩ stalls (.overflow, s')

theorem Loaded.advanced {s₀ s : StreamSource} {h : Header} {whole : List UInt8} {stalls : Nat}
    {p : Outcome ReadError Buffer × StreamSource} (hload : Loaded s h whole stalls p)
    (hempty : s.buffered = []) (haccount : s.account = s₀.account) :
    Advanced s₀ (contentsAfter h whole) stalls p := by
  cases hload with
  | complete later enough =>
    have hrest : contentsIn (s.buffered ++ whole.drop h.payload.toNat) =
        contentsIn (whole.drop h.payload.toNat) := by rw [hempty, List.nil_append]
    rw [contentsAfter, if_pos enough, ← hrest]
    refine .delivered (.between rfl ?_ later) (congrArg (note · h) haccount)
    rw [hempty]
    exact Nat.zero_le _
  | stalled later same short =>
    refine .stalled ?_ haccount
    rw [← same]
    exact .within rfl (Nat.le_of_lt short) hempty later
  | ended short =>
    rw [contentsAfter, if_neg (Nat.not_le.mpr short)]
    exact .ended haccount

theorem advanced_of_awaits {s : StreamSource} {contents : Contents} {stalls : Nat}
    (ha : Awaits s contents stalls) : Advanced s contents stalls s.read := by
  cases ha with
  | within begun short empty later =>
    rw [read_of_pending begun]
    exact (loaded_of_delivers later short).advanced empty rfl
  | @between bytes stalls idle hshort hdel =>
    have hsearched : Searched (s.buffered ++ bytes) false stalls _ :=
      searched_of_delivers hdel hshort
    generalize hscan : scan s.buffered s.reader false = found at hsearched
    have hreader : s.searched.reader = found.reader := by rw [searched, hscan]
    have hbuffered : s.searched.buffered = found.buffered := by rw [searched, hscan]
    rw [contentsIn_eq]
    cases hsearched with
    | @found _ r h bytes located later =>
      rw [read_of_found idle (by rw [hscan]), located]
      dsimp only at hreader hbuffered
      rw [← hreader] at later
      have hload : Loaded s.searched h ([] ++ bytes) stalls (s.searched.readPayload h []) :=
        loaded_of_delivers later (Nat.zero_le _)
      exact hload.advanced hbuffered rfl
    | overflow located later =>
      rw [read_of_overflow idle (by rw [hscan]), located]
      dsimp only at hreader hbuffered
      rw [← hreader] at later
      exact .aborted later rfl
    | ended located =>
      rw [read_of_broken idle (by rw [hscan]), located]
      exact .ended rfl
    | @paused _ r buffered bytes later same short =>
      rw [read_of_broken idle (by rw [hscan]), ← contentsIn_eq, ← same]
      dsimp only at hreader hbuffered
      rw [← hreader] at later
      rw [← hbuffered] at short ⊢
      exact .stalled (.between idle (Nat.le_of_lt short) later) rfl
    | @stalled _ r buffered bytes later same short gap =>
      rw [read_of_broken idle (by rw [hscan]), ← contentsIn_eq, ← contentsIn_congr same]
      dsimp only at hreader hbuffered
      rw [← hreader] at later
      rw [← hbuffered] at short ⊢
      exact .stalled (.between idle (Nat.le_of_lt short) later) rfl

/-! ## All reads -/

def isStall : Outcome ReadError Buffer → Bool
  | .error .noData => true
  | _ => false

@[simp] theorem isStall_ok (b : Buffer) : isStall (.ok b) = false := rfl
@[simp] theorem isStall_noData : isStall (.error .noData) = true := rfl

/-- The end of all reads, after so many stalls of all: the end of the stream, when the reader has
stalled as often as it does, or an overflow, when the rest of its stalls is still to come. -/
inductive Ends (stalls met : Nat) : Bool → Outcome ReadError Buffer → Reader → Prop where
  | ended {r : Reader} (all : met = stalls) : Ends stalls met false (.error .endOfStream) r
  | aborted {left : Nat} {bytes : List UInt8} {r : Reader} (later : Delivers bytes left r)
      (rest : met + left = stalls) : Ends stalls met true .overflow r

section Ends

variable {stalls met : Nat} {overflows : Bool} {last : Outcome ReadError Buffer} {r : Reader}

theorem Ends.cons (h : Ends stalls met overflows last r) :
    Ends (stalls + 1) (met + 1) overflows last r := by
  cases h with
  | ended all => exact .ended (by rw [all])
  | aborted later rest => exact .aborted later (by omega)

theorem Ends.le (h : Ends stalls met overflows last r) : met ≤ stalls := by
  cases h with
  | ended all => exact Nat.le_of_eq all
  | aborted later rest => omega

theorem Ends.last_eq (h : Ends stalls met overflows last r) :
    last = if overflows then .overflow else .error .endOfStream := by
  cases h with
  | ended => rfl
  | aborted => rfl

theorem Ends.met_or (h : Ends stalls met overflows last r) :
    (last = .error .endOfStream ∧ met = stalls) ∨
      (last = .overflow ∧ ∃ rest left, Delivers rest left r ∧ met + left = stalls) := by
  cases h with
  | ended all => exact .inl ⟨rfl, all⟩
  | aborted later rest => exact .inr ⟨rfl, _, _, later, rest⟩

end Ends

/-- All reads deliver all frames up to the overflow, if there is one, and meet the stalls of the
reader on the way. -/
theorem drain_of_awaits {s : StreamSource} {contents : Contents} {stalls : Nat}
    (ha : Awaits s contents stalls) :
    s.drain.answers.filter (fun answer => !isStall answer) =
        contents.frames.map (fun f => .ok (block f.1 f.2)) ∧
      Ends stalls (s.drain.answers.countP isStall) contents.overflows s.drain.last
        s.drain.source.reader ∧
      s.drain.source.account = (contents.frames.map Prod.fst).foldl note s.account := by
  -- Every read takes a frame or a stall from what is awaited.
  induction hk : contents.frames.length + stalls using Nat.strongRecOn
    generalizing s contents stalls with
  | ind k ih =>
    have hread := advanced_of_awaits ha
    generalize hp : s.read = p at hread
    cases hread with
    | @delivered f contents stalls s' hafter haccount =>
      have hfewer : contents.frames.length + stalls < k := by
        rw [← hk, Contents.cons, List.length_cons]
        omega
      obtain ⟨hblocks, hends, hsaid⟩ := ih _ hfewer hafter rfl
      rw [drain_of_result hp rfl]
      refine ⟨?_, ?_, ?_⟩
      · rw [Drained.cons, List.filter_cons_of_pos (by simp), hblocks]
        rfl
      · rw [Drained.cons, List.countP_cons_of_neg (by simp)]
        exact hends
      · rw [Drained.cons, hsaid, haccount]
        rfl
    | @stalled contents stalls s' hafter haccount =>
      obtain ⟨hblocks, hends, hsaid⟩ := ih _ (by omega) hafter rfl
      rw [drain_of_result hp rfl]
      refine ⟨?_, ?_, ?_⟩
      · rw [Drained.cons, List.filter_cons_of_neg (by simp), hblocks]
      · rw [Drained.cons, List.countP_cons_of_pos (by simp)]
        exact hends.cons
      · rw [Drained.cons, hsaid, haccount]
    | ended haccount =>
      rw [drain_of_end hp rfl]
      exact ⟨rfl, .ended rfl, haccount⟩
    | aborted later haccount =>
      rw [drain_of_end hp rfl]
      exact ⟨rfl, .aborted later (Nat.zero_add _), haccount⟩

/-- **The blocks do not depend on the cuts.** Whatever the bytes are, a reader that hands them out
in pieces, with stalls and interruptions, gives the same blocks as one that has them all at once,
apart from one report for each stall that is met; the reads end with the same answer, and the
source says the same about the stream. All stalls are met before the end of the stream is reported.
Only where an overflow aborts the reads are some left to the reader. -/
theorem drain_cut {bytes : List UInt8} {stalls : Nat} {r : Reader}
    (hdel : Delivers bytes stalls r) (channels : UInt32) (rate : Double) :
    let cut := (new r channels rate).drain
    let whole := (new [.data bytes] channels rate).drain
    ∃ blocks : List Buffer, whole.answers = blocks.map .ok ∧
      cut.answers.filter (fun answer => !isStall answer) = blocks.map .ok ∧
      cut.last = whole.last ∧
      ((cut.last = .error .endOfStream ∧ cut.answers.countP isStall = stalls) ∨
        (cut.last = .overflow ∧ ∃ rest left, Delivers rest left cut.source.reader ∧
          cut.answers.countP isStall + left = stalls)) ∧
      cut.source.info = whole.source.info ∧ cut.source.lastHeader = whole.source.lastHeader := by
  intro cut whole
  have hcut : Awaits (new r channels rate) (contentsIn bytes) stalls :=
    .between rfl (Nat.zero_le _) hdel
  have hwhole : Awaits (new [.data bytes] channels rate) (contentsIn bytes) 0 :=
    .between rfl (Nat.zero_le _) (.whole bytes)
  obtain ⟨hblocks, hends, haccount⟩ := drain_of_awaits hcut
  obtain ⟨hblocks', hends', haccount'⟩ := drain_of_awaits hwhole
  have hsaid : cut.source.account = whole.source.account := haccount.trans haccount'.symm
  have hnone : whole.answers.countP isStall = 0 := Nat.le_zero.mp hends'.le
  refine ⟨(contentsIn bytes).frames.map fun f => block f.1 f.2, ?_, ?_,
    hends.last_eq.trans hends'.last_eq.symm, hends.met_or, ?_, ?_⟩
  · -- Without stalls there is nothing to leave out.
    have hall : whole.answers.filter (fun answer => !isStall answer) = whole.answers := by
      rw [List.filter_eq_self]
      intro answer hmem
      simpa using List.countP_eq_zero.mp hnone answer hmem
    rw [← hall, List.map_map]
    exact hblocks'
  · rw [List.map_map]
    exact hblocks
  · exact congrArg Prod.fst hsaid
  · exact congrArg Prod.snd hsaid

/-- A stall in the middle of a search and one before the payload. -/
theorem drain_cut_torn :
    let header : Header := ⟨0, 0, 1, 1, 2, .zero, 0, 0⟩
    let cut := (new [.data [7], .fault .wouldBlock "", .data header.bytes,
      .fault .interrupted "", .fault .wouldBlock "", .data [5, 0]] 1 .zero).drain
    let whole := (new [.data ([7] ++ (header.bytes ++ ([5, 0] ++ [])))] 1 .zero).drain
    ∃ blocks : List Buffer, whole.answers = blocks.map .ok ∧
      cut.answers.filter (fun answer => !isStall answer) = blocks.map .ok ∧
      cut.last = whole.last ∧
      ((cut.last = .error .endOfStream ∧ cut.answers.countP isStall = 2) ∨
        (cut.last = .overflow ∧ ∃ rest left, Delivers rest left cut.source.reader ∧
          cut.answers.countP isStall + left = 2)) ∧
      cut.source.info = whole.source.info ∧ cut.source.lastHeader = whole.source.lastHeader :=
  drain_cut (.data _ (.stall _ (.data _ (.interrupted _ (.stall _ (.data _ .nil)))))) 1 .zero

end StreamSource

end Wire
end Oscilloscope
