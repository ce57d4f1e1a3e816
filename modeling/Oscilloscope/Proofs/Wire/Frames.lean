import Oscilloscope.Proofs.Wire.Headers

/-!
# Oscilloscope.Proofs.Wire.Frames

The frames in a byte string that is there as a whole: what a reader of a stream is measured by.

A search for a header passes what is refused, one byte after the other. It finds the first header,
or it aborts at the first size that overflows, whichever comes first.

* `locate bytes`: what a search in `bytes` comes to.
* `contentsIn bytes`: all headers with their payloads, one behind the other, and whether an
  overflow follows them. A header inside a payload is not seen, and an incomplete payload ends the
  list.
* `locate_skipToMagic`: skipping to the next possible magic passes only what is refused.
* `locate_gap`: bytes that are refused as the start of a header are passed over.
-/

namespace Oscilloscope
namespace Wire

/-- Whether the beginning of `bytes` is refused as a header. -/
def Header.refuses (bytes : List UInt8) : Bool := (Header.decode bytes).isError

theorem Header.refuses_of_ok {bytes : List UInt8} {h : Header} (hok : Header.decode bytes = .ok h) :
    Header.refuses bytes = false := by
  rw [Header.refuses, hok]
  rfl

theorem Header.refuses_of_error {bytes : List UInt8} {e : WireError}
    (herr : Header.decode bytes = .error e) : Header.refuses bytes = true := by
  rw [Header.refuses, herr]
  rfl

theorem Header.refuses_of_overflow {bytes : List UInt8}
    (hover : Header.decode bytes = .overflow) : Header.refuses bytes = false := by
  rw [Header.refuses, hover]
  rfl

/-- What is neither accepted nor an overflow is refused. -/
theorem Header.refuses_of_neither {bytes : List UInt8}
    (hok : (Header.decode bytes).isOk = false) (hover : (Header.decode bytes).isOverflow = false) :
    Header.refuses bytes = true := by
  rw [Header.refuses]
  cases hd : Header.decode bytes with
  | error e => rfl
  | ok h =>
    rw [hd] at hok
    cases hok
  | overflow =>
    rw [hd] at hover
    cases hover

theorem Header.refuses_append {bytes : List UInt8} (hlen : headerLength ≤ bytes.length)
    (rest : List UInt8) : Header.refuses (bytes ++ rest) = Header.refuses bytes := by
  rw [Header.refuses, Header.decode_append hlen, Header.refuses]

theorem Header.refuses_of_length_lt {bytes : List UInt8} (hlen : bytes.length < headerLength) :
    Header.refuses bytes = true := by
  obtain ⟨e, herr⟩ := Header.decode_of_length_lt hlen
  exact Header.refuses_of_error herr

/-! ## The first header -/

/-- What a search for a header comes to. -/
inductive Found where
  /-- There is none. -/
  | nothing
  /-- A header, and the bytes behind it. -/
  | header (h : Header) (rest : List UInt8)
  /-- The size of what would be the first header overflows. -/
  | overflow

def locate : List UInt8 → Found
  | [] => .nothing
  | b :: rest =>
    match Header.decode (b :: rest) with
    | .ok h => .header h ((b :: rest).drop headerLength)
    | .overflow => .overflow
    | .error _ => locate rest

theorem locate_of_ok {bytes : List UInt8} {h : Header} (hok : Header.decode bytes = .ok h) :
    locate bytes = .header h (bytes.drop headerLength) := by
  cases bytes with
  | nil => cases hok
  | cons b rest => simp only [locate, hok]

theorem locate_of_overflow {bytes : List UInt8} (hover : Header.decode bytes = .overflow) :
    locate bytes = .overflow := by
  cases bytes with
  | nil => cases hover
  | cons b rest => simp only [locate, hover]

theorem locate_cons {b : UInt8} {rest : List UInt8}
    (hno : Header.refuses (b :: rest) = true) : locate (b :: rest) = locate rest := by
  cases hd : Header.decode (b :: rest) with
  | error e => simp only [locate, hd]
  | ok h =>
    rw [Header.refuses_of_ok hd] at hno
    cases hno
  | overflow =>
    rw [Header.refuses_of_overflow hd] at hno
    cases hno

theorem locate_of_length_lt {bytes : List UInt8} (hlen : bytes.length < headerLength) :
    locate bytes = .nothing := by
  induction bytes with
  | nil => rfl
  | cons b rest ih =>
    rw [locate_cons (Header.refuses_of_length_lt hlen)]
    apply ih
    rw [List.length_cons] at hlen
    omega

theorem length_of_locate {bytes rest : List UInt8} {h : Header}
    (hloc : locate bytes = .header h rest) : rest.length + headerLength ≤ bytes.length := by
  induction bytes with
  | nil => cases hloc
  | cons b tail ih =>
    cases hd : Header.decode (b :: tail) with
    | ok h' =>
      rw [locate_of_ok hd] at hloc
      cases hloc
      have hle := (Header.decode_ok hd).1
      rw [List.length_drop]
      omega
    | error e =>
      rw [locate_cons (Header.refuses_of_error hd)] at hloc
      have hle := ih hloc
      rw [List.length_cons]
      omega
    | overflow =>
      rw [locate_of_overflow hd] at hloc
      cases hloc

theorem locate_gap {gap rest : List UInt8}
    (hquiet : ∀ i < gap.length, Header.refuses ((gap ++ rest).drop i) = true) :
    locate (gap ++ rest) = locate rest := by
  induction gap with
  | nil => rfl
  | cons b gap ih =>
    have hhere : Header.refuses (b :: (gap ++ rest)) = true := hquiet 0 (Nat.zero_lt_succ _)
    rw [List.cons_append, locate_cons hhere]
    apply ih
    intro i hi
    exact hquiet (i + 1) (Nat.succ_lt_succ hi)

/-- A search aborts in a gap without a header if some size in it overflows. -/
theorem locate_gap_overflow {gap rest : List UInt8}
    (hquiet : ∀ i < gap.length, (Header.decode ((gap ++ rest).drop i)).isOk = false)
    (hover : ∃ i < gap.length, (Header.decode ((gap ++ rest).drop i)).isOverflow = true) :
    locate (gap ++ rest) = .overflow := by
  induction gap with
  | nil =>
    obtain ⟨i, hi, -⟩ := hover
    cases hi
  | cons b gap ih =>
    cases hd : Header.decode (b :: (gap ++ rest)) with
    | ok h =>
      have hhere : (Header.decode (b :: (gap ++ rest))).isOk = false :=
        hquiet 0 (Nat.zero_lt_succ _)
      rw [hd] at hhere
      cases hhere
    | overflow => exact locate_of_overflow hd
    | error e =>
      rw [List.cons_append, locate_cons (Header.refuses_of_error hd)]
      apply ih
      · intro i hi
        exact hquiet (i + 1) (Nat.succ_lt_succ hi)
      · -- The overflow is not here, so it is in the rest of the gap.
        obtain ⟨i, hi, hthere⟩ := hover
        cases i with
        | zero =>
          rw [List.drop_zero, List.cons_append, hd] at hthere
          cases hthere
        | succ i => exact ⟨i, Nat.lt_of_succ_lt_succ hi, hthere⟩

/-- Whether a search in `bytes` passes some of them: there is room for a header, but what begins
here is refused. -/
def gapped (bytes : List UInt8) : Bool :=
  decide (headerLength ≤ bytes.length) && Header.refuses bytes

theorem gapped_of_ok {bytes : List UInt8} {h : Header} (hok : Header.decode bytes = .ok h) :
    gapped bytes = false := by
  rw [gapped, Header.refuses_of_ok hok, Bool.and_false]

theorem gapped_of_overflow {bytes : List UInt8} (hover : Header.decode bytes = .overflow) :
    gapped bytes = false := by
  rw [gapped, Header.refuses_of_overflow hover, Bool.and_false]

theorem gapped_of_nothing {bytes : List UInt8} (hloc : locate bytes = .nothing) :
    gapped bytes = decide (headerLength ≤ bytes.length) := by
  cases hd : Header.decode bytes with
  | error e => rw [gapped, Header.refuses_of_error hd, Bool.and_true]
  | ok h =>
    rw [locate_of_ok hd] at hloc
    cases hloc
  | overflow =>
    rw [locate_of_overflow hd] at hloc
    cases hloc

/-! ## Skipping -/

/-- Where the bytes at hand do not fit the magic, no header begins, whatever follows. -/
theorem refuses_of_not_magic {bytes : List UInt8}
    (hno : (bytes.take 4).isPrefixOf magicBytes = false) (rest : List UInt8) :
    Header.refuses (bytes ++ rest) = true := by
  cases hrefused : Header.refuses (bytes ++ rest) with
  | true => rfl
  | false =>
    -- Then the bytes at hand would be the beginning of a magic.
    have hnot : ∀ e, Header.decode (bytes ++ rest) ≠ .error e := by
      intro e herr
      rw [Header.refuses_of_error herr] at hrefused
      cases hrefused
    have hmagic := (Header.take_of_decode hnot).2
    have hfront : bytes.take 4 <+: magicBytes := by
      rw [← hmagic, List.take_append]
      exact List.prefix_append _ _
    rw [List.isPrefixOf_iff_prefix.mpr hfront] at hno
    cases hno

theorem locate_dropToMagic (bytes rest : List UInt8) :
    locate (dropToMagic bytes ++ rest) = locate (bytes ++ rest) := by
  induction bytes with
  | nil => rfl
  | cons b tail ih =>
    simp only [dropToMagic]
    split
    · rfl
    · rename_i hno
      have hhere : Header.refuses (b :: (tail ++ rest)) = true :=
        refuses_of_not_magic (Bool.eq_false_iff.mpr hno) rest
      rw [ih, List.cons_append, locate_cons hhere]

/-- Skipping to the next possible magic passes no header, although the bytes behind the buffer
are not known yet. -/
theorem locate_skipToMagic {bytes : List UInt8} (hlen : headerLength ≤ bytes.length)
    (hno : Header.refuses bytes = true) (rest : List UInt8) :
    locate (skipToMagic bytes ++ rest) = locate (bytes ++ rest) := by
  cases bytes with
  | nil => rfl
  | cons b tail =>
    -- The first byte goes because its 64 bytes are refused, the others for lack of a magic.
    have hhere : Header.refuses (b :: (tail ++ rest)) = true := by
      rw [← List.cons_append, Header.refuses_append hlen, hno]
    rw [skipToMagic, List.tail_cons, locate_dropToMagic, List.cons_append, locate_cons hhere]

/-! ## All frames -/

/-- Headers with their payloads, and whether an overflow follows them. -/
structure Contents where
  frames : List (Header × List UInt8)
  overflows : Bool

namespace Contents

def empty : Contents := ⟨[], false⟩

def cons (f : Header × List UInt8) (c : Contents) : Contents := ⟨f :: c.frames, c.overflows⟩

end Contents

/-- The frames in some bytes: each header with its payload. -/
def contentsIn (bytes : List UInt8) : Contents :=
  match _located : locate bytes with
  | .nothing => .empty
  | .overflow => ⟨[], true⟩
  | .header h rest =>
    if h.payload.toNat ≤ rest.length then
      (contentsIn (rest.drop h.payload.toNat)).cons (h, rest.take h.payload.toNat)
    else .empty
termination_by bytes.length
decreasing_by
  have hle := length_of_locate _located
  rw [List.length_drop]
  unfold headerLength at hle
  omega

/-- The frames in some bytes that follow header `h`. -/
def contentsAfter (h : Header) (bytes : List UInt8) : Contents :=
  if h.payload.toNat ≤ bytes.length then
    (contentsIn (bytes.drop h.payload.toNat)).cons (h, bytes.take h.payload.toNat)
  else .empty

theorem contentsIn_eq (bytes : List UInt8) : contentsIn bytes =
    match locate bytes with
    | .nothing => .empty
    | .overflow => ⟨[], true⟩
    | .header h rest => contentsAfter h rest := by
  rw [contentsIn]
  split
  · rename_i heq
    rw [heq]
  · rename_i heq
    rw [heq]
  · rename_i heq
    rw [heq]
    rfl

theorem contentsIn_congr {bytes bytes' : List UInt8} (hsame : locate bytes = locate bytes') :
    contentsIn bytes = contentsIn bytes' := by
  rw [contentsIn_eq, contentsIn_eq, hsame]

end Wire
end Oscilloscope
