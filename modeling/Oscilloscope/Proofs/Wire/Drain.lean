import Oscilloscope.Wire.StreamSource

/-!
# Oscilloscope.Proofs.Wire.Drain

Reading a stream to its end.

Every read that neither reports the end of the stream nor aborts uses up bytes or an event of the
transport, whatever the transport does. So a caller who reads on gets to a last answer.

* `isEnd`: nothing comes after the answer of a read.
* `StreamSource.read_of_pending`, `read_of_broken`, `read_of_overflow` and `read_of_found`: the four
  ways of a read.
* `StreamSource.weight` is what a source can still use up.
* `StreamSource.weight_read_lt`: every read lowers it.
* `StreamSource.drain`: the answers of all reads, and the source after the last one.
-/

namespace Oscilloscope
namespace Wire

def Reader.weight (r : Reader) : Nat := r.length + r.remaining.length

/-- An attempt to read adds nothing, and a fault takes an event. -/
theorem Reader.fill_length (need : Nat) (got : List UInt8) (r : Reader) :
    (r.fill need got).2.2.length ≤ r.length ∧
      ∀ kind reason, (r.fill need got).1 = .fault kind reason →
        (r.fill need got).2.2.length < r.length := by
  induction r generalizing got with
  | nil =>
    simp only [Reader.fill]
    split
    · exact ⟨Nat.le_refl _, fun kind reason h => by cases h⟩
    · exact ⟨Nat.le_refl _, fun kind reason h => by cases h⟩
  | cons event rest ih =>
    simp only [Reader.fill]
    split
    · exact ⟨Nat.le_refl _, fun kind reason h => by cases h⟩
    · cases event with
      | data bytes =>
        dsimp only
        split
        · exact ⟨Nat.le_refl _, fun kind reason h => by cases h⟩
        · obtain ⟨hle, hlt⟩ := ih (got ++ bytes)
          exact ⟨Nat.le_succ_of_le hle, fun kind reason h => Nat.lt_succ_of_lt (hlt kind reason h)⟩
      | endOfFile => exact ⟨Nat.le_succ _, fun kind reason h => by cases h⟩
      | fault kind reason =>
        cases kind with
        | interrupted =>
          obtain ⟨hle, hlt⟩ := ih got
          exact ⟨Nat.le_succ_of_le hle, fun kind reason h => Nat.lt_succ_of_lt (hlt kind reason h)⟩
        | wouldBlock => exact ⟨Nat.le_succ _, fun _ _ _ => Nat.lt_succ_self _⟩
        | failed => exact ⟨Nat.le_succ _, fun _ _ _ => Nat.lt_succ_self _⟩

section Fill

variable {need : Nat} {got got' : List UInt8} {r r' : Reader} {outcome : FillOutcome}

theorem Reader.weight_fill_le (h : r.fill need got = (outcome, got', r')) :
    got'.length + r'.weight ≤ got.length + r.weight := by
  have hlen := (Reader.fill_length need got r).1
  have hsame := congrArg List.length (Reader.fill_remaining need got r)
  rw [h] at hlen hsame
  simp only [List.length_append] at hlen hsame
  unfold Reader.weight
  omega

theorem Reader.weight_fill_lt {kind : Fault} {reason : String}
    (h : r.fill need got = (.fault kind reason, got', r')) :
    got'.length + r'.weight < got.length + r.weight := by
  have hlen := (Reader.fill_length need got r).2 kind reason (by rw [h])
  have hsame := congrArg List.length (Reader.fill_remaining need got r)
  rw [h] at hlen hsame
  simp only [List.length_append] at hlen hsame
  unfold Reader.weight
  omega

theorem Reader.length_of_complete (h : r.fill need got = (.complete, got', r')) :
    need ≤ got'.length := by
  have hlen := @Reader.le_length_of_fill need got r (by rw [h])
  rwa [h] at hlen

end Fill

/-- The end of the stream is reported, or an overflow has aborted the read. -/
def isEnd {α : Type} : Outcome ReadError α → Bool
  | .error .endOfStream => true
  | .overflow => true
  | _ => false

def Scan.weight (s : Scan) : Nat := s.buffered.length + s.reader.weight

theorem weight_skipToMagic {bytes : List UInt8} (h : headerLength ≤ bytes.length) :
    (skipToMagic bytes).length < bytes.length := by
  apply length_skipToMagic_lt
  unfold headerLength at h
  omega

theorem scan_weight (buffered : List UInt8) (reader : Reader) (skipped : Bool)
    (hnot : isEnd (scan buffered reader skipped).outcome = false) :
    (scan buffered reader skipped).weight < buffered.length + reader.weight := by
  fun_induction scan buffered reader skipped with
  | case1 => cases hnot
  | case2 before source skipped reason buffered reader hfill => exact Reader.weight_fill_lt hfill
  | case3 before source skipped kind reason buffered reader hkind hfill =>
    exact Reader.weight_fill_lt hfill
  | case4 before source skipped buffered reader hfill header hdecode =>
    have hle := Reader.weight_fill_le hfill
    have hfull := Reader.length_of_complete hfill
    simp only [Scan.weight, List.length_nil, headerLength] at hle hfull ⊢
    omega
  | case5 => cases hnot
  | case6 before source skipped buffered reader hfill e hdecode ih =>
    -- The bytes that are skipped are used up as well.
    have hlt := ih hnot
    have hle := Reader.weight_fill_le hfill
    have hskip := weight_skipToMagic (Reader.length_of_complete hfill)
    omega

namespace StreamSource

/-! ## One read -/

/-- The source after its search for a header. -/
def searched (s : StreamSource) : StreamSource :=
  let found := scan s.buffered s.reader false
  { s with reader := found.reader, buffered := found.buffered,
           resyncs := if found.skipped then s.resyncs + 1 else s.resyncs }

section Read

variable {s : StreamSource}

theorem read_of_pending {h : Header} {got : List UInt8} (hp : s.pending = some (h, got)) :
    s.read = s.readPayload h got := by
  simp only [read, hp]

theorem read_of_broken {e : ReadError} (hp : s.pending = none)
    (hout : (scan s.buffered s.reader false).outcome = .error e) :
    s.read = (.error e, s.searched) := by
  simp only [read, hp, hout, searched]

theorem read_of_overflow (hp : s.pending = none)
    (hout : (scan s.buffered s.reader false).outcome = .overflow) :
    s.read = (.overflow, s.searched) := by
  simp only [read, hp, hout, searched]

theorem read_of_found {h : Header} (hp : s.pending = none)
    (hout : (scan s.buffered s.reader false).outcome = .ok h) :
    s.read = s.searched.readPayload h [] := by
  simp only [read, hp, hout, searched]

/-! ## Progress -/

/-- What a source can still use up. An incomplete payload weighs one more than its bytes. -/
def weight (s : StreamSource) : Nat :=
  s.reader.weight + s.buffered.length +
    match s.pending with
    | none => 0
    | some (_, got) => got.length + 1

theorem weight_of_none (hp : s.pending = none) :
    s.weight = s.reader.weight + s.buffered.length := by
  simp only [weight, hp, Nat.add_zero]

theorem weight_of_some {h : Header} {got : List UInt8}
    (hp : s.pending = some (h, got)) :
    s.weight = s.reader.weight + s.buffered.length + (got.length + 1) := by
  simp only [weight, hp]

/-- A payload that is read on weighs less than before it was asked for. -/
theorem weight_readPayload {h : Header} {got : List UInt8}
    (hnot : isEnd (s.readPayload h got).1 = false) :
    (s.readPayload h got).2.weight ≤ s.reader.weight + s.buffered.length + got.length := by
  unfold readPayload at hnot ⊢
  split
  · rename_i payload reader hfill
    have hle := Reader.weight_fill_le hfill
    simp only [weight]
    omega
  · rename_i hfill
    rw [hfill] at hnot
    cases hnot
  · rename_i hfill
    have hlt := Reader.weight_fill_lt hfill
    simp only [weight]
    omega
  · rename_i hfill
    have hlt := Reader.weight_fill_lt hfill
    simp only [weight]
    omega

/-- A read that is not the last one uses something up. -/
theorem weight_read_lt (hnot : isEnd s.read.1 = false) :
    s.read.2.weight < s.weight := by
  cases hp : s.pending with
  | some p =>
    obtain ⟨h, got⟩ := p
    rw [read_of_pending hp] at hnot ⊢
    have hle := weight_readPayload hnot
    rw [weight_of_some hp]
    omega
  | none =>
    have hsearch := scan_weight s.buffered s.reader false
    rw [weight_of_none hp]
    cases hout : (scan s.buffered s.reader false).outcome with
    | error e =>
      rw [read_of_broken hp hout] at hnot ⊢
      have hmore : isEnd (.error e : Outcome ReadError Header) = false := by
        cases e with
        | endOfStream => cases hnot
        | noData => rfl
        | failed reason => rfl
      have hlt := hsearch (by rw [hout, hmore])
      have hp' : s.searched.pending = none := hp
      rw [weight_of_none hp']
      simp only [Scan.weight] at hlt
      simp only [searched]
      omega
    | overflow =>
      rw [read_of_overflow hp hout] at hnot
      cases hnot
    | ok h =>
      rw [read_of_found hp hout] at hnot ⊢
      have hlt := hsearch (by rw [hout]; rfl)
      have hle := weight_readPayload hnot
      simp only [Scan.weight] at hlt
      simp only [searched, List.length_nil] at hle ⊢
      omega

end Read

/-! ## All reads -/

/-- What all reads come to. -/
structure Drained where
  /-- The answers before the last one. -/
  answers : List (Outcome ReadError Buffer)
  /-- The last answer: the end of the stream, or an overflow. -/
  last : Outcome ReadError Buffer
  source : StreamSource

/-- One answer more, before the others. -/
def Drained.cons (answer : Outcome ReadError Buffer) (d : Drained) : Drained :=
  { d with answers := answer :: d.answers }

/-- Read until the end of the stream is reported, or a read aborts. -/
def drain (s : StreamSource) : Drained :=
  if _atEnd : isEnd s.read.1 then ⟨[], s.read.1, s.read.2⟩ else s.read.2.drain.cons s.read.1
termination_by s.weight
decreasing_by exact weight_read_lt (Bool.eq_false_iff.mpr _atEnd)

theorem drain_of_end {s s' : StreamSource} {answer : Outcome ReadError Buffer}
    (hread : s.read = (answer, s')) (hend : isEnd answer = true) :
    s.drain = ⟨[], answer, s'⟩ := by
  rw [drain, hread, dif_pos hend]

theorem drain_of_result {s s' : StreamSource} {answer : Outcome ReadError Buffer}
    (hread : s.read = (answer, s')) (hnot : isEnd answer = false) :
    s.drain = s'.drain.cons answer := by
  rw [drain, hread, dif_neg (Bool.eq_false_iff.mp hnot)]

end StreamSource

end Wire
end Oscilloscope
