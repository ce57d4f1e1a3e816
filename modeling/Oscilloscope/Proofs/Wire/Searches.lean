import Oscilloscope.Proofs.Wire.Delivery

/-!
# Oscilloscope.Proofs.Wire.Searches

What the number of skips depends on.

A read counts a skip if its own search for a header passes bytes. A search that a stall breaks off
is taken up by the next read, which does not know what has been passed before. So one search that
passes bytes on both sides of a stall is counted twice.

* `skipsIn bytes`: the searches in `bytes` that pass something, each counted once.
* `StreamSource.repeats`: the reads that count a search which has been counted before.
* `StreamSource.Owes s sought count stalls`: what a source has yet to count, when the search it is
  in has been counted (`sought`) or not.
* `StreamSource.drain_recounts`: the count is what it is without stalls, and the repeats.
-/

namespace Oscilloscope
namespace Wire

/-! ## The skips in bytes that are there as a whole -/

/-- The skips behind the first header. -/
def skipsBehind (bytes : List UInt8) : Nat :=
  match _located : locate bytes with
  | .nothing => 0
  | .overflow => 0
  | .header h rest =>
    if h.payload.toNat ≤ rest.length then
      (gapped (rest.drop h.payload.toNat)).toNat + skipsBehind (rest.drop h.payload.toNat)
    else 0
termination_by bytes.length
decreasing_by
  have hle := length_of_locate _located
  rw [List.length_drop]
  unfold headerLength at hle
  omega

/-- The searches that pass bytes, up to the end or to an overflow. -/
def skipsIn (bytes : List UInt8) : Nat := (gapped bytes).toNat + skipsBehind bytes

/-- The skips in some bytes that follow header `h`. -/
def skipsAfter (h : Header) (bytes : List UInt8) : Nat :=
  if h.payload.toNat ≤ bytes.length then skipsIn (bytes.drop h.payload.toNat) else 0

section Skips

variable {bytes rest : List UInt8} {h : Header}

theorem skipsBehind_eq (bytes : List UInt8) : skipsBehind bytes =
    match locate bytes with
    | .nothing => 0
    | .overflow => 0
    | .header h rest => skipsAfter h rest := by
  rw [skipsBehind]
  split
  · rename_i heq
    rw [heq]
  · rename_i heq
    rw [heq]
  · rename_i heq
    rw [heq]
    rfl

theorem skipsBehind_of_nothing (hloc : locate bytes = .nothing) : skipsBehind bytes = 0 := by
  rw [skipsBehind_eq, hloc]

theorem skipsBehind_of_overflow (hloc : locate bytes = .overflow) : skipsBehind bytes = 0 := by
  rw [skipsBehind_eq, hloc]

theorem skipsBehind_of_header (hloc : locate bytes = .header h rest) :
    skipsBehind bytes = skipsAfter h rest := by
  rw [skipsBehind_eq, hloc]

theorem skipsBehind_congr {bytes' : List UInt8} (hsame : locate bytes = locate bytes') :
    skipsBehind bytes = skipsBehind bytes' := by
  rw [skipsBehind_eq, skipsBehind_eq, hsame]

end Skips

namespace StreamSource

/-! ## What a read counts -/

/-- Whether the next read searches and passes bytes. -/
def skips (s : StreamSource) : Bool :=
  s.pending.isNone && (scan s.buffered s.reader false).skipped

/-- Whether the next read leaves a search behind in which bytes have been passed, by it or before
(`sought`). -/
def breaksOff (s : StreamSource) (sought : Bool) : Bool :=
  isStall s.read.1 && s.read.2.pending.isNone && (sought || s.skips)

/-- How many reads up to the last one count a search that has been counted before. -/
def repeats (s : StreamSource) (sought : Bool) : Nat :=
  if _atEnd : isEnd s.read.1 then (sought && s.skips).toNat
  else (sought && s.skips).toNat + s.read.2.repeats (s.breaksOff sought)
termination_by s.weight
decreasing_by exact weight_read_lt (Bool.eq_false_iff.mpr _atEnd)

section Read

variable {s : StreamSource} {sought : Bool}

theorem repeats_of_end (hend : isEnd s.read.1 = true) :
    s.repeats sought = (sought && s.skips).toNat := by
  rw [repeats, dif_pos hend]

theorem repeats_of_result (hnot : isEnd s.read.1 = false) :
    s.repeats sought = (sought && s.skips).toNat + s.read.2.repeats (s.breaksOff sought) := by
  rw [repeats, dif_neg (Bool.eq_false_iff.mp hnot)]

theorem readPayload_resyncs (h : Header) (got : List UInt8) :
    (s.readPayload h got).2.resyncs = s.resyncs := by
  unfold readPayload
  split <;> rfl

theorem searched_resyncs (idle : s.pending = none) :
    s.searched.resyncs = s.resyncs + UInt64.ofNat s.skips.toNat := by
  simp only [searched, skips, idle, Option.isNone_none, Bool.true_and]
  cases (scan s.buffered s.reader false).skipped
  · exact (UInt64.add_zero _).symm
  · rfl

theorem read_resyncs (s : StreamSource) :
    s.read.2.resyncs = s.resyncs + UInt64.ofNat s.skips.toNat := by
  cases hp : s.pending with
  | some p =>
    have hskips : s.skips = false := by rw [skips, hp, Option.isNone_some, Bool.false_and]
    rw [read_of_pending hp, readPayload_resyncs, hskips]
    exact (UInt64.add_zero _).symm
  | none =>
    cases hout : (scan s.buffered s.reader false).outcome with
    | error e => rw [read_of_broken hp hout, searched_resyncs hp]
    | overflow => rw [read_of_overflow hp hout, searched_resyncs hp]
    | ok h => rw [read_of_found hp hout, readPayload_resyncs, searched_resyncs hp]

/-! ## What is yet to be counted -/

/-- What a source has yet to count, with so many stalls. Between two frames the search it is in
comes first, unless that has been counted. -/
inductive Owes (s : StreamSource) (sought : Bool) : Nat → Nat → Prop where
  | between {bytes : List UInt8} {stalls : Nat} (idle : s.pending = none)
      (short : s.buffered.length ≤ headerLength) (later : Delivers bytes stalls s.reader) :
      Owes s sought ((!sought && gapped (s.buffered ++ bytes)).toNat +
        skipsBehind (s.buffered ++ bytes)) stalls
  | within {h : Header} {got bytes : List UInt8} {stalls : Nat}
      (begun : s.pending = some (h, got)) (short : got.length ≤ h.payload.toNat)
      (empty : s.buffered = []) (later : Delivers bytes stalls s.reader)
      (fresh : sought = false) : Owes s sought (skipsAfter h (got ++ bytes)) stalls

/-- What a read does with what is to be counted. What it counts is paid; a search that has been
counted before is paid in addition. -/
inductive Recounted (s : StreamSource) (sought : Bool) (count stalls : Nat) : Prop where
  | ended (result : isEnd s.read.1 = true)
      (paid : count + (sought && s.skips).toNat = s.skips.toNat)
  | goesOn {count' stalls' : Nat} (result : isEnd s.read.1 = false)
      (later : Owes s.read.2 (s.breaksOff sought) count' stalls')
      (paid : count + (sought && s.skips).toNat = s.skips.toNat + count')
      (fewer : stalls' + (s.breaksOff sought).toNat ≤ stalls)

/-- A read that gets to a payload leaves no search behind. -/
theorem Loaded.recounted {s₁ : StreamSource} {h : Header} {whole : List UInt8}
    {count stalls : Nat} (hload : Loaded s₁ h whole stalls s.read) (hempty : s₁.buffered = [])
    (hpaid : count + (sought && s.skips).toNat = s.skips.toNat + skipsAfter h whole) :
    Recounted s sought count stalls := by
  generalize hread : s.read = p at hload
  cases hload with
  | complete later enough =>
    have hbreaks : s.breaksOff sought = false := by
      rw [breaksOff, hread, isStall_ok, Bool.false_and, Bool.false_and]
    have hrest : skipsIn (whole.drop h.payload.toNat) =
        (!false && gapped (s₁.buffered ++ whole.drop h.payload.toNat)).toNat +
          skipsBehind (s₁.buffered ++ whole.drop h.payload.toNat) := by
      rw [hempty]
      rfl
    have hlater : Owes s.read.2 (s.breaksOff sought) (skipsAfter h whole) stalls := by
      rw [hbreaks, hread, skipsAfter, if_pos enough, hrest]
      refine .between rfl ?_ later
      rw [hempty]
      exact Nat.zero_le _
    refine .goesOn (by rw [hread]; rfl) hlater hpaid ?_
    rw [hbreaks]
    exact Nat.le_refl _
  | @stalled stalls r got bytes later same short =>
    have hbreaks : s.breaksOff sought = false := by
      rw [breaksOff, hread, Option.isNone_some, Bool.and_false, Bool.false_and]
    have hlater : Owes s.read.2 (s.breaksOff sought) (skipsAfter h whole) stalls := by
      rw [hbreaks, hread, ← same]
      exact .within rfl (Nat.le_of_lt short) hempty later rfl
    refine .goesOn (by rw [hread]; rfl) hlater hpaid ?_
    rw [hbreaks]
    exact Nat.le_succ _
  | ended short =>
    rw [skipsAfter, if_neg (Nat.not_le.mpr short)] at hpaid
    exact .ended (by rw [hread]; rfl) hpaid

/-- A search that a stall breaks off is left behind, with what it has passed. -/
theorem recounted_of_stall {found : Scan} {bytes : List UInt8} {count stalls : Nat}
    (idle : s.pending = none) (hscan : scan s.buffered s.reader false = found)
    (hout : found.outcome = .error .noData) (later : Delivers bytes stalls found.reader)
    (short : found.buffered.length < headerLength)
    (hpaid : count + (sought && s.skips).toNat =
      s.skips.toNat + ((!(sought || s.skips) && gapped (found.buffered ++ bytes)).toNat +
        skipsBehind (found.buffered ++ bytes))) :
    Recounted s sought count (stalls + 1) := by
  subst hscan
  have hread := read_of_broken idle hout
  have hbreaks : s.breaksOff sought = (sought || s.skips) := by
    have hidle : s.searched.pending.isNone = true := by
      rw [searched, idle]
      rfl
    rw [breaksOff, hread, hidle, isStall_noData, Bool.and_true, Bool.true_and]
  refine @Recounted.goesOn s sought count (stalls + 1) _ stalls ?_ ?_ hpaid ?_
  · rw [hread]
    rfl
  · rw [hbreaks, hread]
    exact .between idle (Nat.le_of_lt short) later
  · exact Nat.add_le_add_left (Bool.toNat_le _) _

theorem recounted_of_owes {count stalls : Nat} (ho : Owes s sought count stalls) :
    Recounted s sought count stalls := by
  cases ho with
  | @within h got bytes _ begun short empty later fresh =>
    have hload : Loaded s h (got ++ bytes) stalls s.read := by
      rw [read_of_pending begun]
      exact loaded_of_delivers later short
    refine hload.recounted empty ?_
    have hskips : s.skips = false := by rw [skips, begun, Option.isNone_some, Bool.false_and]
    rw [hskips, Bool.and_false, Bool.toNat_false, Nat.zero_add, Nat.add_zero]
  | @between bytes _ idle hshort hdel =>
    have hsearched : Searched (s.buffered ++ bytes) false stalls _ :=
      searched_of_delivers hdel hshort
    have hskips : s.skips = (scan s.buffered s.reader false).skipped := by
      rw [skips, idle, Option.isNone_none, Bool.true_and]
    generalize s.buffered ++ bytes = whole at hsearched
    generalize hscan : scan s.buffered s.reader false = found at hsearched hskips
    cases hsearched with
    | @found _ r h bytes located later =>
      have hbuffered : s.searched.buffered = [] := by rw [searched, hscan]
      have hload : Loaded s.searched h ([] ++ bytes) stalls s.read := by
        rw [read_of_found idle (by rw [hscan])]
        refine loaded_of_delivers ?_ (Nat.zero_le _)
        rwa [searched, hscan]
      refine hload.recounted hbuffered ?_
      rw [hskips, skipsBehind_of_header located, List.nil_append]
      cases sought <;> simp [Nat.add_comm]
    | paused later same short =>
      refine recounted_of_stall idle hscan rfl later short ?_
      rw [hskips, same]
      cases sought <;> simp
    | stalled later same short gap =>
      refine recounted_of_stall idle hscan rfl later short ?_
      rw [hskips, gap, skipsBehind_congr same]
      cases sought <;> simp [Nat.add_comm]
    | ended located =>
      refine .ended (by rw [read_of_broken idle (by rw [hscan])]; rfl) ?_
      rw [hskips, skipsBehind_of_nothing located]
      cases sought <;> simp
    | overflow located later =>
      refine .ended (by rw [read_of_overflow idle (by rw [hscan])]; rfl) ?_
      rw [hskips, skipsBehind_of_overflow located]
      cases sought <;> simp

end Read

/-! ## All reads -/

/-- All reads count what is owed, and the repeats on top of it. A stall allows one repeat. -/
theorem drain_of_owes {s : StreamSource} {sought : Bool} {count stalls : Nat}
    (ho : Owes s sought count stalls) :
    s.drain.source.resyncs = s.resyncs + UInt64.ofNat (count + s.repeats sought) ∧
      s.repeats sought ≤ stalls + sought.toNat := by
  -- Every read uses something up, and pays what it counts.
  induction hk : s.weight using Nat.strongRecOn generalizing s sought count stalls with
  | ind k ih =>
    have hresyncs := read_resyncs s
    have hhere : (sought && s.skips).toNat ≤ sought.toNat := by
      cases sought with
      | false => exact Nat.le_refl _
      | true => exact Bool.toNat_le _
    generalize hread : s.read = p at hresyncs
    obtain ⟨result, s'⟩ := p
    cases recounted_of_owes ho with
    | ended hend paid =>
      rw [repeats_of_end hend]
      rw [hread] at hend
      rw [drain_of_end hread hend, hresyncs, paid]
      exact ⟨rfl, Nat.le_add_left_of_le hhere⟩
    | goesOn hnot later paid fewer =>
      have hless := weight_read_lt hnot
      rw [repeats_of_result hnot]
      rw [hread] at hnot later hless ⊢
      obtain ⟨hcount, hrepeats⟩ := ih _ (by omega) later rfl
      rw [drain_of_result hread hnot, Drained.cons, hcount, hresyncs, UInt64.add_assoc,
        ← UInt64.ofNat_add]
      refine ⟨?_, by omega⟩
      rw [← Nat.add_assoc, ← Nat.add_assoc, paid]

/-- A new source owes the skips of all its bytes. -/
theorem owes_new {bytes : List UInt8} {stalls : Nat} {r : Reader} (hdel : Delivers bytes stalls r)
    (channels : UInt32) (rate : Double) : Owes (new r channels rate) false (skipsIn bytes) stalls :=
  @Owes.between (new r channels rate) false bytes stalls rfl (Nat.zero_le _) hdel

/-- **The count of skips.** A source that has all bytes at once counts each search that passes
some of them once. A reader that hands them out in pieces, with stalls and interruptions, adds the
repeats: each read that passes bytes in a search which a read before it has counted and a stall has
broken off. There are no more of these than stalls, so cuts and interruptions alone change nothing;
and with fewer than `2 ^ 64` stalls the two counts are the same only if there are none. This is said
of all reads up to the last one, which reports the end of the stream or aborts. -/
theorem drain_recounts {bytes : List UInt8} {stalls : Nat} {r : Reader}
    (hdel : Delivers bytes stalls r) (channels : UInt32) (rate : Double) :
    let source := new r channels rate
    let whole := (new [.data bytes] channels rate).drain.source
    whole.resyncs = UInt64.ofNat (skipsIn bytes) ∧
      source.drain.source.resyncs = whole.resyncs + UInt64.ofNat (source.repeats false) ∧
      source.repeats false ≤ stalls ∧
      (stalls < 2 ^ 64 →
        (source.drain.source.resyncs = whole.resyncs ↔ source.repeats false = 0)) := by
  intro source whole
  obtain ⟨hcount, hrepeats⟩ := drain_of_owes (owes_new hdel channels rate)
  obtain ⟨hcount', hrepeats'⟩ := drain_of_owes (owes_new (.whole bytes) channels rate)
  have hwhole : whole.resyncs = UInt64.ofNat (skipsIn bytes) := by
    rw [hcount', Nat.le_zero.mp hrepeats', Nat.add_zero]
    exact UInt64.zero_add _
  have hsum : source.drain.source.resyncs = whole.resyncs + UInt64.ofNat (source.repeats false) := by
    have hfresh : source.resyncs = 0 := rfl
    rw [hcount, hwhole, hfresh, UInt64.zero_add, UInt64.ofNat_add]
  refine ⟨hwhole, hsum, hrepeats, ?_⟩
  intro hbound
  rw [hsum]
  constructor
  · intro hsame
    have hzero : UInt64.ofNat (source.repeats false) = 0 := UInt64.add_eq_left.mp hsame
    have hnat := congrArg UInt64.toNat hzero
    rw [UInt64.toNat_ofNat_of_lt' (Nat.lt_of_le_of_lt hrepeats hbound)] at hnat
    exact hnat
  · intro hnone
    rw [hnone]
    exact UInt64.add_zero _

/-- Garbage on both sides of a stall, and a stall before the end. -/
theorem drain_recounts_torn :
    let piece : List UInt8 := List.replicate 64 0
    let source := new [.data piece, .fault .interrupted "", .fault .wouldBlock "",
      .data piece, .fault .wouldBlock ""] 1 .zero
    let bytes := piece ++ (piece ++ [])
    let whole := (new [.data bytes] 1 .zero).drain.source
    whole.resyncs = UInt64.ofNat (skipsIn bytes) ∧
      source.drain.source.resyncs = whole.resyncs + UInt64.ofNat (source.repeats false) ∧
      source.repeats false ≤ 2 ∧
      (2 < 2 ^ 64 → (source.drain.source.resyncs = whole.resyncs ↔ source.repeats false = 0)) :=
  drain_recounts (.data _ (.interrupted _ (.stall _ (.data _ (.stall _ .nil))))) 1 .zero

section Blank

variable {piece : List UInt8} {rest : Reader}

/-- A header's length of bytes that do not even begin a magic is passed as a whole. -/
theorem scan_of_blank {skipped : Bool} (hlen : piece.length = headerLength)
    (hno : Header.refuses piece = true) (hskip : skipToMagic piece = []) :
    scan [] (.data piece :: rest) skipped = scan [] rest true := by
  have hfill : Reader.fill headerLength [] (.data piece :: rest) = (.complete, piece, rest) := by
    have hnow : ¬headerLength ≤ ([] : List UInt8).length := by decide
    have hfit : ¬headerLength - ([] : List UInt8).length < piece.length := by
      rw [hlen]
      exact Nat.lt_irrefl _
    have hfull : headerLength ≤ piece.length := Nat.le_of_eq hlen.symm
    cases rest <;> simp only [Reader.fill, if_neg hnow, if_neg hfit, List.nil_append, if_pos hfull]
  cases hdecode : Header.decode piece with
  | ok h =>
    rw [Header.refuses_of_ok hdecode] at hno
    cases hno
  | overflow =>
    rw [Header.refuses_of_overflow hdecode] at hno
    cases hno
  | error e => rw [scan_of_garbage hfill hdecode, hskip]

/-- Two such pieces with a stall in between are one search, but both reads count it. -/
theorem drain_of_blanks (hlen : piece.length = headerLength)
    (hno : Header.refuses piece = true) (hskip : skipToMagic piece = []) (reason : String)
    (channels : UInt32) (rate : Double) :
    (new [.data piece, .fault .wouldBlock reason, .data piece] channels rate).drain.source.resyncs =
      2 := by
  have hfirst : scan [] [.data piece, .fault .wouldBlock reason, .data piece] false =
      ⟨.error .noData, [], [.data piece], true⟩ := by
    rw [scan_of_blank hlen hno hskip]
    exact scan_of_stalled rfl
  have hsecond : scan [] [.data piece] false = ⟨.error .endOfStream, [], [], true⟩ := by
    rw [scan_of_blank hlen hno hskip]
    exact scan_of_ended rfl
  have hstall : (new [.data piece, .fault .wouldBlock reason, .data piece] channels rate).read =
      (.error .noData, { new [.data piece] channels rate with resyncs := 1 }) := by
    rw [read_of_broken rfl (congrArg Scan.outcome hfirst), searched]
    simp only [new, hfirst, if_true, UInt64.zero_add]
  have hend : ({ new [.data piece] channels rate with resyncs := 1 } : StreamSource).read =
      (.error .endOfStream, { new [] channels rate with resyncs := 2 }) := by
    rw [read_of_broken rfl (congrArg Scan.outcome hsecond), searched]
    simp only [new, hsecond, if_true]
    rfl
  rw [drain_of_result hstall rfl, drain_of_end hend rfl]
  rfl

/-- Where there are only zeros, no header begins. -/
theorem locate_zeros (n : Nat) : locate (List.replicate n 0) = .nothing := by
  induction n with
  | zero => rfl
  | succ n ih =>
    have hzero : (([0] : List UInt8).take 4).isPrefixOf magicBytes = false := by decide
    have hhere : Header.refuses (0 :: List.replicate n 0) = true := refuses_of_not_magic hzero _
    rw [List.replicate_succ, locate_cons hhere, ih]

end Blank

/-- One search in 128 bytes of garbage is counted once; with a stall in the middle of the garbage
it is counted twice. -/
theorem drain_counts_twice :
    let piece : List UInt8 := List.replicate 64 0
    (new [.data piece, .fault .wouldBlock "stall", .data piece] 1 .zero).drain.source.resyncs = 2 ∧
      (new [.data (piece ++ piece)] 1 .zero).drain.source.resyncs = 1 := by
  intro piece
  have hnothing : locate (piece ++ piece) = .nothing := by
    rw [List.replicate_append_replicate]
    exact locate_zeros _
  have hgap : gapped (piece ++ piece) = true := by
    rw [gapped_of_nothing hnothing]
    rfl
  obtain ⟨hcount, hrepeats⟩ := drain_of_owes (owes_new (.whole (piece ++ piece)) 1 .zero)
  constructor
  · have hno : Header.refuses piece = true := by decide
    have hskip : skipToMagic piece = [] := by decide
    exact drain_of_blanks rfl hno hskip "stall" 1 .zero
  · rw [hcount, Nat.le_zero.mp hrepeats, skipsIn, skipsBehind_of_nothing hnothing, hgap]
    rfl

end StreamSource

end Wire
end Oscilloscope
