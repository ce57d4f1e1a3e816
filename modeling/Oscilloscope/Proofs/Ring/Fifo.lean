import Oscilloscope.Proofs.Ring.Contents

/-!
# Oscilloscope.Proofs.Ring.Fifo

A ring with its past, proved to be a bounded first-in, first-out buffer.

`History` runs any operations of the producer and the consumer on a ring, in any order, and writes
down which elements were accepted and which have left it.

* `checkedLength`, `checkedFree`, `checkedSplit`: the differences of indices, each refused below
  zero. For a ring with valid ends none is refused.
* `popInto_spec`, `popOne_spec`, `discard_spec`, `pushOne_spec`: one lemma per operation, beside
  `push_spec` and `pop_spec`.
* `History.step_moves`: every operation takes oldest elements off and puts new ones behind.
* `History.run_fifo`: all of it, for every capacity and all operations.
-/

namespace Oscilloscope.Ring

variable {α : Type} {r : Ring α}

/-! ## Differences of indices -/

def minus? (a b : Nat) : Option Nat := if b ≤ a then some (a - b) else none

theorem minus?_of_le {a b : Nat} (h : b ≤ a) : minus? a b = some (a - b) := if_pos h

def checkedLength (r : Ring α) : Option Nat :=
  if r.tail ≤ r.head then minus? r.head r.tail
  else do
    let behind ← minus? r.slotCount r.tail
    some (behind + r.head)

def checkedFree (r : Ring α) : Option Nat :=
  if r.tail ≤ r.head then do
    let last ← minus? r.slotCount 1
    let ahead ← minus? last r.head
    some (ahead + r.tail)
  else do
    let between ← minus? r.tail r.head
    minus? between 1

/-- How many of `n` elements a copy moves before it meets the end of the slots, and how many after
that. -/
def checkedSplit (r : Ring α) (start n : Nat) : Option (Nat × Nat) := do
  let room ← minus? r.slotCount start
  let rest ← minus? n (min n room)
  some (min n room, rest)

theorem Valid.checkedLength (h : r.Valid) : r.checkedLength = some r.length := by
  have htail := h.tail_lt
  unfold Ring.checkedLength Ring.length
  split
  · exact minus?_of_le ‹_›
  · rw [minus?_of_le (by omega)]
    rfl

theorem Valid.checkedFree (h : r.Valid) : r.checkedFree = some r.free := by
  have hhead := h.head_lt
  unfold Ring.checkedFree Ring.free
  split
  · rw [minus?_of_le (by omega), Option.bind_eq_bind, Option.bind_some, minus?_of_le (by omega)]
    rfl
  · rw [minus?_of_le (by omega), Option.bind_eq_bind, Option.bind_some, minus?_of_le (by omega)]

theorem checkedSplit_of_le {start : Nat} (h : start ≤ r.slotCount) (n : Nat) :
    r.checkedSplit start n =
      some (min n (r.slotCount - start), n - min n (r.slotCount - start)) := by
  unfold checkedSplit
  rw [minus?_of_le h, Option.bind_eq_bind, Option.bind_some, minus?_of_le (Nat.min_le_left _ _)]
  rfl

/-! ## Single operations -/

theorem free_eq (h : r.Valid) : r.free = r.capacity - r.length := by
  have := h.length_add_free
  omega

theorem pushOne_spec (h : r.Valid) (value : α) :
    ∃ r', r.pushOne value = (decide (r.length < r.capacity), r') ∧ r'.Valid ∧
      r'.contents = r.contents ++ (if r.length < r.capacity then [value] else []) ∧
      r'.capacity = r.capacity ∧ r'.closed = r.closed := by
  obtain ⟨r', hpush, hvalid, hcontents, hcapacity, hclosed⟩ := push_spec h [value]
  rw [free_eq h] at hpush hcontents
  refine ⟨r', ?_, hvalid, ?_, hcapacity, hclosed⟩
  · rw [pushOne, hpush, List.length_singleton]
    congr 1
    by_cases hroom : r.length < r.capacity
    · rw [Nat.min_eq_left (by omega), decide_eq_true hroom]
      rfl
    · rw [Nat.min_eq_right (by omega), decide_eq_false hroom, beq_eq_false_iff_ne]
      omega
  · rw [hcontents]
    split
    · rw [List.take_of_length_le (by simp; omega)]
    · rw [show r.capacity - r.length = 0 by omega, List.take_zero]

theorem discard_spec (h : r.Valid) (limit : Nat) :
    ∃ r', r.discard limit = (min limit r.length, r') ∧ r'.Valid ∧
      r'.contents = r.contents.drop limit ∧ r'.capacity = r.capacity ∧ r'.closed = r.closed := by
  obtain ⟨r', hpop, hr'⟩ := pop_spec h limit
  have hcount : (r.discard limit).1 = min limit r.length := by
    rw [discard_eq h, Nat.min_comm]
  have hrest : (r.discard limit).2 = r' := congrArg Prod.snd hpop
  exact ⟨r', Prod.ext hcount hrest, hr'⟩

theorem popInto_spec (h : r.Valid) (target : List α) :
    ∃ r', r.popInto target = (min target.length r.length,
        r.contents.take target.length ++ target.drop r.length, r') ∧ r'.Valid ∧
      r'.contents = r.contents.drop target.length ∧ r'.capacity = r.capacity ∧
      r'.closed = r.closed := by
  obtain ⟨r', hpop, hr'⟩ := pop_spec h target.length
  refine ⟨r', ?_, hr'⟩
  have hcount : (r.contents.take target.length).length = min target.length r.length := by
    rw [List.length_take, length_contents h]
  have hdrop : target.drop (min target.length r.length) = target.drop r.length := by
    rcases Nat.le_total target.length r.length with hle | hle
    · rw [Nat.min_eq_left hle, List.drop_length, List.drop_of_length_le hle]
    · rw [Nat.min_eq_right hle]
  simp only [popInto, hpop, hcount, hdrop]

theorem popOne_spec (h : r.Valid) :
    ∃ r', r.popOne? = (r.contents.head?, r') ∧ r'.Valid ∧ r'.contents = r.contents.tail ∧
      r'.capacity = r.capacity ∧ r'.closed = r.closed := by
  obtain ⟨r', hpop, hvalid, hcontents, hcapacity, hclosed⟩ := pop_spec h 1
  refine ⟨r', ?_, hvalid, ?_, hcapacity, hclosed⟩
  · rw [popOne?, hpop]
    cases r.contents with
    | nil => rfl
    | cons a rest => rfl
  · rw [hcontents, List.drop_one]

/-! ## Histories -/

/-- One operation on a ring, of the producer or of the consumer. -/
inductive Operation (α : Type) where
  | push (values : List α)
  | pushOne (value : α)
  | close
  | popInto (target : List α)
  | popOne
  | discard (limit : Nat)

def Operation.closes : Operation α → Bool
  | close => true
  | _ => false

/-- A ring with its past. -/
structure History (α : Type) where
  ring : Ring α
  /-- The elements accepted, in the order in which they were offered. -/
  accepted : List α := []
  /-- The elements popped or discarded, in the order in which they went. -/
  removed : List α := []

namespace History

def new (capacity : Nat) (filler : α) : History α := { ring := .new capacity filler }

def step (h : History α) : Operation α → History α
  | .push values =>
    let (n, ring) := h.ring.push values
    { h with ring, accepted := h.accepted ++ values.take n }
  | .pushOne value =>
    let (taken, ring) := h.ring.pushOne value
    { h with ring, accepted := h.accepted ++ if taken then [value] else [] }
  | .close => { h with ring := h.ring.close }
  | .popInto target =>
    let (n, filled, ring) := h.ring.popInto target
    { h with ring, removed := h.removed ++ filled.take n }
  | .popOne =>
    let (element, ring) := h.ring.popOne?
    { h with ring, removed := h.removed ++ element.toList }
  | .discard limit =>
    let (n, ring) := h.ring.discard limit
    { h with ring, removed := h.removed ++ h.ring.contents.take n }

def run (h : History α) (ops : List (Operation α)) : History α := ops.foldl step h

/-- What an operation does: the `gone` oldest elements leave the ring of `h`, and `come` are put
behind the others. -/
structure Moves (h h' : History α) (gone : Nat) (come : List α) : Prop where
  valid : h'.ring.Valid
  capacity : h'.ring.capacity = h.ring.capacity
  contents : h'.ring.contents = h.ring.contents.drop gone ++ come
  removed : h'.removed = h.removed ++ h.ring.contents.take gone
  accepted : h'.accepted = h.accepted ++ come

variable {h : History α} {size : Nat}

theorem step_moves (hv : h.ring.Valid) (op : Operation α) :
    (∃ gone come, Moves h (h.step op) gone come) ∧
      (h.step op).ring.closed = (h.ring.closed || op.closes) := by
  cases op with
  | push values =>
    obtain ⟨r, hpush, hvalid, hcontents, hcapacity, hclosed⟩ := push_spec hv values
    have htake : values.take (min values.length h.ring.free) = values.take h.ring.free := by
      rw [Nat.min_comm, ← List.take_eq_take_min]
    simp only [step, hpush, htake]
    refine ⟨⟨0, values.take h.ring.free, hvalid, hcapacity, hcontents, ?_, rfl⟩, ?_⟩
    · simp
    · simp [hclosed, Operation.closes]
  | pushOne value =>
    obtain ⟨r, hpush, hvalid, hcontents, hcapacity, hclosed⟩ := pushOne_spec hv value
    simp only [step, hpush, decide_eq_true_eq]
    refine ⟨⟨0, _, hvalid, hcapacity, hcontents, ?_, rfl⟩, ?_⟩
    · simp
    · simp [hclosed, Operation.closes]
  | close =>
    refine ⟨⟨0, [], hv.close, rfl, ?_, ?_, ?_⟩, ?_⟩
    · exact (List.append_nil _).symm
    · simp [step]
    · simp [step]
    · simp [step, Ring.close, Operation.closes]
  | popInto target =>
    obtain ⟨r, hpop, hvalid, hcontents, hcapacity, hclosed⟩ := popInto_spec hv target
    have hlength : (h.ring.contents.take target.length).length =
        min target.length h.ring.length := by
      rw [List.length_take, length_contents hv]
    simp only [step, hpop, List.take_left' hlength]
    refine ⟨⟨target.length, [], hvalid, hcapacity, ?_, rfl, ?_⟩, ?_⟩
    · rw [hcontents, List.append_nil]
    · simp
    · simp [hclosed, Operation.closes]
  | popOne =>
    obtain ⟨r, hpop, hvalid, hcontents, hcapacity, hclosed⟩ := popOne_spec hv
    simp only [step, hpop]
    refine ⟨⟨1, [], hvalid, hcapacity, ?_, ?_, ?_⟩, ?_⟩
    · rw [hcontents, List.drop_one, List.append_nil]
    · cases h.ring.contents with
      | nil => rfl
      | cons a rest => rfl
    · simp
    · simp [hclosed, Operation.closes]
  | discard limit =>
    obtain ⟨r, hpop, hvalid, hcontents, hcapacity, hclosed⟩ := discard_spec hv limit
    have htake : h.ring.contents.take (min limit h.ring.length) = h.ring.contents.take limit := by
      rw [← length_contents hv, ← List.take_eq_take_min]
    simp only [step, hpop, htake]
    refine ⟨⟨limit, [], hvalid, hcapacity, ?_, rfl, ?_⟩, ?_⟩
    · rw [hcontents, List.append_nil]
    · simp
    · simp [hclosed, Operation.closes]

/-- What every operation preserves, for a ring with room for `size` elements. -/
structure Sound (size : Nat) (h : History α) : Prop where
  valid : h.ring.Valid
  capacity : h.ring.capacity = size
  fifo : h.removed ++ h.ring.contents = h.accepted

theorem new_sound (capacity : Nat) (filler : α) :
    (new capacity filler).Sound (max capacity 1) where
  valid := new_valid capacity filler
  capacity := capacity_new capacity filler
  fifo := contents_new capacity filler

theorem step_sound (hs : h.Sound size) (op : Operation α) : (h.step op).Sound size := by
  obtain ⟨⟨gone, come, hmoves⟩, -⟩ := step_moves hs.valid op
  refine ⟨hmoves.valid, hmoves.capacity.trans hs.capacity, ?_⟩
  calc (h.step op).removed ++ (h.step op).ring.contents
      = h.removed ++ (h.ring.contents.take gone ++ h.ring.contents.drop gone) ++ come := by
        rw [hmoves.removed, hmoves.contents]
        simp only [List.append_assoc]
    _ = h.accepted ++ come := by rw [List.take_append_drop, hs.fifo]
    _ = (h.step op).accepted := hmoves.accepted.symm

theorem run_sound (hs : h.Sound size) (ops : List (Operation α)) : (h.run ops).Sound size := by
  induction ops generalizing h with
  | nil => exact hs
  | cons op ops ih => exact ih (step_sound hs op)

theorem run_closed (hs : h.Sound size) (ops : List (Operation α)) :
    (h.run ops).ring.closed = (h.ring.closed || ops.any Operation.closes) := by
  induction ops generalizing h with
  | nil => simp [run]
  | cons op ops ih =>
    have hrest := ih (step_sound hs op)
    rw [(step_moves hs.valid op).2] at hrest
    simpa [run, Bool.or_assoc] using hrest

theorem closes_iff {op : Operation α} : op.closes = true ↔ op = .close := by
  cases op with
  | close => simp [Operation.closes]
  | _ => simp [Operation.closes]

theorem isFinished_iff {r : Ring α} (hv : r.Valid) :
    r.isFinished = true ↔ r.closed = true ∧ r.contents = [] := by
  rw [isFinished, isEmpty, Bool.and_eq_true, beq_iff_eq, ← length_contents hv,
    List.length_eq_zero_iff]

/-- **A ring is a bounded first-in, first-out buffer.** For every capacity, where zero is raised to
one, and whatever the two ends have done to the ring so far:

* both ends are slots, no difference of indices is below zero, and no more elements are in the ring
  than it has room for;
* what has left it and what is in it are the accepted elements in their order;
* a push takes the longest prefix for which there is room, and a single element if there is any;
* a pop fills the first places of its target with the oldest elements and leaves the other places
  as they are, and a discard takes off the oldest elements;
* it is finished exactly when it has been closed and is empty. -/
theorem run_fifo (capacity : Nat) (filler : α) (ops : List (Operation α)) :
    let size := max capacity 1
    let h := (new capacity filler).run ops
    let r := h.ring
    (r.slotCount = size + 1 ∧ r.head < size + 1 ∧ r.tail < size + 1) ∧
    (r.checkedLength = some r.length ∧ r.checkedFree = some r.free ∧
      ∀ n, r.checkedSplit r.head n =
          some (min n (r.slotCount - r.head), n - min n (r.slotCount - r.head)) ∧
        r.checkedSplit r.tail n =
          some (min n (r.slotCount - r.tail), n - min n (r.slotCount - r.tail))) ∧
    (r.length ≤ size ∧ r.contents.length = r.length) ∧
    h.removed ++ r.contents = h.accepted ∧
    (∀ values, (r.push values).1 = min values.length (size - r.length) ∧
      (r.push values).2.contents = r.contents ++ values.take (size - r.length)) ∧
    (∀ value, (r.pushOne value).1 = decide (r.length < size) ∧
      (r.pushOne value).2.contents = r.contents ++ if r.length < size then [value] else []) ∧
    (∀ target, (r.popInto target).1 = min target.length r.length ∧
      (r.popInto target).2.1 = r.contents.take target.length ++ target.drop r.length ∧
      (r.popInto target).2.2.contents = r.contents.drop target.length) ∧
    (r.popOne?.1 = r.contents.head? ∧ r.popOne?.2.contents = r.contents.tail) ∧
    (∀ limit, (r.discard limit).1 = min limit r.length ∧
      (r.discard limit).2.contents = r.contents.drop limit) ∧
    (r.isFinished = true ↔ .close ∈ ops ∧ r.contents = []) := by
  intro size h r
  have hnew : (new capacity filler).Sound size := new_sound capacity filler
  have hsound : h.Sound size := run_sound hnew ops
  have hv : r.Valid := hsound.valid
  have hsize : r.capacity = size := hsound.capacity
  have hslots : r.slotCount = size + 1 := by
    have hhead := hv.head_lt
    rw [Ring.capacity] at hsize
    omega
  refine ⟨⟨hslots, hslots ▸ hv.head_lt, hslots ▸ hv.tail_lt⟩,
    ⟨hv.checkedLength, hv.checkedFree, ?_⟩, ⟨hsize ▸ hv.length_le, length_contents hv⟩,
    hsound.fifo, ?_, ?_, ?_, ?_, ?_, ?_⟩
  · intro n
    exact ⟨checkedSplit_of_le (Nat.le_of_lt hv.head_lt) n,
      checkedSplit_of_le (Nat.le_of_lt hv.tail_lt) n⟩
  · intro values
    obtain ⟨r', hpush, -, hcontents, -⟩ := push_spec hv values
    rw [hpush, hcontents, free_eq hv, hsize]
    exact ⟨rfl, rfl⟩
  · intro value
    obtain ⟨r', hpush, -, hcontents, -⟩ := pushOne_spec hv value
    rw [hpush, hcontents, hsize]
    exact ⟨rfl, rfl⟩
  · intro target
    obtain ⟨r', hpop, -, hcontents, -⟩ := popInto_spec hv target
    rw [hpop, hcontents]
    exact ⟨rfl, rfl, rfl⟩
  · obtain ⟨r', hpop, -, hcontents, -⟩ := popOne_spec hv
    rw [hpop, hcontents]
    exact ⟨rfl, rfl⟩
  · intro limit
    obtain ⟨r', hdiscard, -, hcontents, -⟩ := discard_spec hv limit
    rw [hdiscard, hcontents]
    exact ⟨rfl, rfl⟩
  · have hclosed : r.closed = true ↔ .close ∈ ops := by
      rw [run_closed hnew ops]
      simp [new, Ring.new, closes_iff]
    rw [isFinished_iff hv, hclosed]

end History

end Oscilloscope.Ring
