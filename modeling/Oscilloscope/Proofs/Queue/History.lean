import Mathlib.Data.List.DropRight
import Oscilloscope.Queue.Bounded

/-!
# Oscilloscope.Proofs.Queue.History

A queue with its past, proved to be a bounded first-in, first-out buffer.

`History` runs any sequence of operations on a queue and writes down which items were accepted and
which have left it. An offer that would have to wait is not made: it is repeated later, when there
is room or the queue is shut down.

* `Bounded.offer_cases`: everything that an offer can come to.
* `History.step_sound`: what every operation preserves.
* `History.run_dropOldest`: without removals in between, the newest items stay.
* `History.run_refines_fifo`: all of it, for every capacity, policy and sequence of operations.
-/

namespace Oscilloscope
namespace Queue

variable {α : Type}

namespace Bounded

theorem isFull_iff {q : Bounded α} : q.isFull = true ↔ q.capacity ≤ q.length := by
  simp [isFull]

theorem length_eq (q : Bounded α) : q.length = q.items.length := rfl

@[simp] theorem append_items (q : Bounded α) (a : α) : (q.append a).items = q.items ++ [a] := rfl
@[simp] theorem append_capacity (q : Bounded α) (a : α) : (q.append a).capacity = q.capacity := rfl
@[simp] theorem append_policy (q : Bounded α) (a : α) : (q.append a).policy = q.policy := rfl
@[simp] theorem append_accepted (q : Bounded α) (a : α) :
    (q.append a).accepted = q.accepted + 1 := rfl
@[simp] theorem append_dropped (q : Bounded α) (a : α) : (q.append a).dropped = q.dropped := rfl
@[simp] theorem append_isShutdown (q : Bounded α) (a : α) :
    (q.append a).isShutdown = q.isShutdown := rfl

/-- The queue after the oldest item has made room for `a`. -/
def replaceOldest (q : Bounded α) (a : α) : Bounded α :=
  { q with items := q.items.tail, dropped := q.dropped + 1 }.append a

theorem offer_refused {q : Bounded α} (a : α) (hp : q.policy = .block)
    (hs : q.isShutdown = true) : q.offer a = ⟨.shutdown, q, [a]⟩ := by
  simp [offer, hp, hs]

theorem offer_room {q : Bounded α} (a : α) (hroom : q.length < q.capacity)
    (hopen : ¬(q.policy = .block ∧ q.isShutdown = true)) :
    q.offer a = ⟨.accepted, q.append a, []⟩ := by
  have hfull : ¬q.isFull = true := by rw [isFull_iff]; omega
  rw [offer, if_neg hopen, if_neg hfull]

theorem offer_full {q : Bounded α} (a : α) (hfull : q.capacity ≤ q.length)
    (hp : q.policy = .dropLatest) :
    q.offer a = ⟨.full, { q with dropped := q.dropped + 1 }, [a]⟩ := by
  simp [offer, isFull_iff.mpr hfull, hp]

theorem offer_evicts {q : Bounded α} (a : α) (hfull : q.capacity ≤ q.length)
    (hp : q.policy = .dropOldest) :
    q.offer a = ⟨.accepted, q.replaceOldest a, q.items.take 1⟩ := by
  simp [offer, isFull_iff.mpr hfull, hp, replaceOldest]

theorem offer_waits {q : Bounded α} (a : α) (hfull : q.capacity ≤ q.length)
    (hp : q.policy = .block) (hopen : q.isShutdown = false) : q.offer a = ⟨.wait, q, []⟩ := by
  simp [offer, isFull_iff.mpr hfull, hp, hopen]

theorem offer_cases (q : Bounded α) (a : α) :
    (q.policy = .block ∧ q.isShutdown = true ∧ q.offer a = ⟨.shutdown, q, [a]⟩) ∨
    (q.length < q.capacity ∧ q.offer a = ⟨.accepted, q.append a, []⟩) ∨
    (q.capacity ≤ q.length ∧ q.policy = .dropLatest ∧
      q.offer a = ⟨.full, { q with dropped := q.dropped + 1 }, [a]⟩) ∨
    (q.capacity ≤ q.length ∧ q.policy = .dropOldest ∧
      q.offer a = ⟨.accepted, q.replaceOldest a, q.items.take 1⟩) ∨
    (q.capacity ≤ q.length ∧ q.policy = .block ∧ q.offer a = ⟨.wait, q, []⟩) := by
  by_cases hs : q.policy = .block ∧ q.isShutdown = true
  · exact .inl ⟨hs.1, hs.2, offer_refused a hs.1 hs.2⟩
  by_cases hfull : q.capacity ≤ q.length
  · rcases hp : q.policy with _ | _ | _
    · exact .inr (.inr (.inl ⟨hfull, rfl, hp ▸ offer_full a hfull hp⟩))
    · exact .inr (.inr (.inr (.inl ⟨hfull, rfl, offer_evicts a hfull hp⟩)))
    · have hopen : q.isShutdown = false := by simpa [hp] using hs
      exact .inr (.inr (.inr (.inr ⟨hfull, rfl, offer_waits a hfull hp hopen⟩)))
  · exact .inr (.inl ⟨by omega, offer_room a (by omega) hs⟩)

theorem dequeue_eq (q : Bounded α) :
    q.dequeue = (q.items.head?, { q with items := q.items.tail }) := by
  cases q with | mk capacity policy items isShutdown accepted dropped =>
    cases items <;> rfl

theorem items_dequeueLatest (q : Bounded α) :
    q.dequeueLatest.2.2 ++ q.dequeueLatest.1.toList = q.items := by
  cases h : q.items with
  | nil => simp [dequeueLatest, h]
  | cons a rest =>
    have hne : q.items ≠ [] := by simp [h]
    rw [← h]
    simp [dequeueLatest, List.getLast?_eq_some_getLast hne, List.dropLast_append_getLast hne]

theorem offer_shutdown {q : Bounded α} (a : α) (hp : q.policy ≠ .block) :
    q.shutdown.offer a =
      ⟨(q.offer a).answer, (q.offer a).queue.shutdown, (q.offer a).discarded⟩ := by
  by_cases hfull : q.capacity ≤ q.length
  · have hfull' : q.shutdown.capacity ≤ q.shutdown.length := hfull
    cases hq : q.policy with
    | block => exact absurd hq hp
    | dropLatest => rw [offer_full a hfull hq, offer_full a hfull' hq]; rfl
    | dropOldest => rw [offer_evicts a hfull hq, offer_evicts a hfull' hq]; rfl
  · have hroom : q.length < q.capacity := by omega
    have hroom' : q.shutdown.length < q.shutdown.capacity := hroom
    rw [offer_room a hroom fun h => hp h.1, offer_room a hroom' fun h => hp h.1]
    rfl

end Bounded

/-! ## Histories -/

/-- One operation on a queue. -/
inductive Operation (α : Type) where
  | offer (item : α)
  | dequeue
  | dequeueLatest
  | shutdown

def Operation.item? : Operation α → Option α
  | offer a => some a
  | _ => none

def Operation.removes : Operation α → Bool
  | dequeue => true
  | dequeueLatest => true
  | _ => false

/-- A queue with its past. -/
structure History (α : Type) where
  queue : Bounded α
  /-- The items accepted, in the order in which they were accepted. -/
  accepted : List α := []
  /-- The items delivered, evicted, or drained as stale, in queue order. -/
  removed : List α := []
  /-- How many items had to make room for another. -/
  evictions : Nat := 0
  /-- How many offers found the queue full and were refused for it. -/
  refusals : Nat := 0

namespace History

def new (capacity : Nat) (policy : Policy) : History α := { queue := .new capacity policy }

/-- Offer `a`, unless that would have to wait. -/
def offer (h : History α) (a : α) : History α :=
  let o := h.queue.offer a
  match o.answer with
  | .accepted =>
    { h with queue := o.queue, accepted := h.accepted ++ [a], removed := h.removed ++ o.discarded,
             evictions := h.evictions + o.discarded.length }
  | .full => { h with queue := o.queue, refusals := h.refusals + 1 }
  | .shutdown => { h with queue := o.queue }
  | .wait => h

def step (h : History α) : Operation α → History α
  | .offer a => h.offer a
  | .dequeue =>
    { h with queue := h.queue.dequeue.2, removed := h.removed ++ h.queue.dequeue.1.toList }
  | .dequeueLatest =>
    let (latest, queue, stale) := h.queue.dequeueLatest
    { h with queue, removed := h.removed ++ (stale ++ latest.toList) }
  | .shutdown => { h with queue := h.queue.shutdown }

def run (h : History α) (ops : List (Operation α)) : History α := ops.foldl step h

@[simp] theorem run_nil (h : History α) : h.run [] = h := rfl
@[simp] theorem run_cons (h : History α) (op : Operation α) (ops : List (Operation α)) :
    h.run (op :: ops) = (h.step op).run ops := rfl

/-- The drops that a policy causes: evictions, refusals, or none. -/
def drops (h : History α) : Policy → Nat
  | .dropOldest => h.evictions
  | .dropLatest => h.refusals
  | .block => 0

/-- What every operation preserves, for a queue with room for `size` items. -/
structure Sound (size : Nat) (rule : Policy) (h : History α) : Prop where
  capacity : h.queue.capacity = size
  policy : h.queue.policy = rule
  bounded : h.queue.length ≤ size
  fifo : h.removed ++ h.queue.items = h.accepted
  accepted : h.queue.accepted = h.accepted.length
  dropped : h.queue.dropped = h.drops rule

theorem new_sound (capacity : Nat) (policy : Policy) :
    (new capacity policy : History α).Sound (max capacity 1) policy where
  capacity := rfl
  policy := rfl
  bounded := Nat.zero_le _
  fifo := rfl
  accepted := rfl
  dropped := by cases policy <;> rfl

section Steps

variable {size : Nat} {rule : Policy} {h : History α}

theorem offer_sound (hsize : 0 < size) (hs : h.Sound size rule) (a : α) :
    (h.offer a).Sound size rule := by
  obtain ⟨hcap, hpol, hbound, hfifo, hacc, hdrop⟩ := hs
  rcases h.queue.offer_cases a with ⟨_, _, ho⟩ | ⟨hroom, ho⟩ | ⟨_, hp, ho⟩ | ⟨hfull, hp, ho⟩ |
    ⟨_, _, ho⟩
  · simp only [offer, ho]
    exact ⟨hcap, hpol, hbound, hfifo, hacc, hdrop⟩
  · simp only [offer, ho]
    refine ⟨hcap, hpol, ?_, ?_, ?_, ?_⟩
    · simp only [Bounded.length_eq, Bounded.append_items, List.length_append,
        List.length_singleton] at hroom ⊢
      omega
    · simp [← hfifo]
    · simp [hacc]
    · rw [Bounded.append_dropped, hdrop]; cases rule <;> rfl
  · simp only [offer, ho]
    refine ⟨hcap, hpol, hbound, hfifo, hacc, ?_⟩
    rw [hdrop, ← hpol, hp]; rfl
  · -- The queue has room for one item at least, so a full one has an oldest.
    obtain ⟨oldest, rest, hitems⟩ : ∃ oldest rest, h.queue.items = oldest :: rest := by
      cases hitems : h.queue.items with
      | nil => simp only [Bounded.length_eq, hitems, List.length_nil] at hfull; omega
      | cons oldest rest => exact ⟨oldest, rest, rfl⟩
    simp only [offer, ho]
    refine ⟨hcap, hpol, ?_, ?_, ?_, ?_⟩
    · simp only [Bounded.length_eq, Bounded.replaceOldest, Bounded.append_items, hitems,
        List.tail_cons, List.length_append, List.length_cons] at hbound ⊢
      omega
    · simp [Bounded.replaceOldest, hitems, ← hfifo]
    · simp [Bounded.replaceOldest, hacc]
    · rw [← hpol, hp] at hdrop ⊢
      simp only [drops] at hdrop
      simp [Bounded.replaceOldest, drops, hitems, hdrop]
  · simp only [offer, ho]
    exact ⟨hcap, hpol, hbound, hfifo, hacc, hdrop⟩

theorem step_sound (hsize : 0 < size) (hs : h.Sound size rule) (op : Operation α) :
    (h.step op).Sound size rule := by
  obtain ⟨hcap, hpol, hbound, hfifo, hacc, hdrop⟩ := id hs
  cases op with
  | offer a => exact offer_sound hsize hs a
  | dequeue =>
    simp only [step, Bounded.dequeue_eq]
    refine ⟨hcap, hpol, ?_, ?_, hacc, ?_⟩
    · simp only [Bounded.length_eq, List.length_tail] at hbound ⊢
      omega
    · rw [← hfifo, List.append_assoc]
      cases h.queue.items <;> rfl
    · rw [hdrop]; cases rule <;> rfl
  | dequeueLatest =>
    refine ⟨hcap, hpol, Nat.zero_le _, ?_, hacc, ?_⟩
    · simp only [step]
      rw [h.queue.items_dequeueLatest, hfifo]
      simp [Bounded.dequeueLatest]
    · exact hdrop.trans (by cases rule <;> rfl)
  | shutdown => exact ⟨hcap, hpol, hbound, hfifo, hacc, hdrop.trans (by cases rule <;> rfl)⟩

theorem run_sound (hsize : 0 < size) (hs : h.Sound size rule) (ops : List (Operation α)) :
    (h.run ops).Sound size rule := by
  induction ops generalizing h with
  | nil => exact hs
  | cons op ops ih => exact ih (step_sound hsize hs op)

/-! ## Without removals -/

theorem rtake_of_length_le {n : Nat} {xs : List α} (hn : xs.length ≤ n) : xs.rtake n = xs := by
  simp [List.rtake, Nat.sub_eq_zero_of_le hn]

theorem rtake_append_rtake (n : Nat) (xs ys : List α) :
    (xs.rtake n ++ ys).rtake n = (xs ++ ys).rtake n := by
  simp only [List.rtake, List.length_append, List.length_drop, List.drop_append, List.drop_drop]
  congr 2 <;> omega

theorem step_dropOldest (hsize : 0 < size) (hs : h.Sound size .dropOldest) (op : Operation α)
    (hop : op.removes = false) :
    (h.step op).queue.items = (h.queue.items ++ op.item?.toList).rtake size := by
  have hlen : h.queue.items.length ≤ size := hs.bounded
  cases op with
  | dequeue => cases hop
  | dequeueLatest => cases hop
  | shutdown =>
    simp only [Operation.item?, Option.toList_none, List.append_nil]
    exact (rtake_of_length_le hlen).symm
  | offer a =>
    simp only [step, offer, Operation.item?, Option.toList_some]
    by_cases hfull : h.queue.capacity ≤ h.queue.length
    · -- Full, so that exactly the oldest of `size` items goes.
      have hsame : h.queue.items.length = size := by
        rw [hs.capacity, Bounded.length_eq] at hfull
        omega
      rw [Bounded.offer_evicts a hfull hs.policy]
      have hone : h.queue.items.length + 1 - size = 1 := by omega
      simp only [Bounded.replaceOldest, Bounded.append_items, List.rtake, List.length_append,
        List.length_singleton, hone, List.drop_one]
      rw [List.tail_append_of_ne_nil (List.ne_nil_of_length_pos (by omega))]
    · have hroom : h.queue.length < h.queue.capacity := by omega
      rw [Bounded.offer_room a hroom (by simp [hs.policy])]
      have hnew : (h.queue.items ++ [a]).length ≤ size := by
        rw [hs.capacity, Bounded.length_eq] at hroom
        rw [List.length_append, List.length_singleton]
        omega
      exact (rtake_of_length_le hnew).symm

/-- Operations that remove nothing keep the newest of the items queued before and offered since. -/
theorem run_dropOldest (hsize : 0 < size) (hs : h.Sound size .dropOldest)
    (ops : List (Operation α)) (hops : ∀ op ∈ ops, op.removes = false) :
    (h.run ops).queue.items = (h.queue.items ++ ops.filterMap Operation.item?).rtake size := by
  induction ops generalizing h with
  | nil => simpa using (rtake_of_length_le hs.bounded).symm
  | cons op ops ih =>
    have hop : op.removes = false := hops op List.mem_cons_self
    have hrest := ih (step_sound hsize hs op) fun o ho => hops o (List.mem_cons_of_mem _ ho)
    rw [run_cons, hrest, step_dropOldest hsize hs op hop, rtake_append_rtake, List.append_assoc]
    cases op <;> rfl

/-! ## Shutdown -/

theorem step_isShutdown (h : History α) (op : Operation α) :
    (h.step op).queue.isShutdown = true ↔ h.queue.isShutdown = true ∨ op = .shutdown := by
  cases op with
  | offer a =>
    simp only [step, offer]
    rcases h.queue.offer_cases a with ⟨_, _, ho⟩ | ⟨_, ho⟩ | ⟨_, _, ho⟩ | ⟨_, _, ho⟩ | ⟨_, _, ho⟩ <;>
      simp [ho, Bounded.replaceOldest]
  | dequeue => simp [step, Bounded.dequeue_eq]
  | dequeueLatest => simp [step, Bounded.dequeueLatest]
  | shutdown => simp [step, Bounded.shutdown]

theorem run_isShutdown (h : History α) (ops : List (Operation α)) :
    (h.run ops).queue.isShutdown = true ↔ h.queue.isShutdown = true ∨ .shutdown ∈ ops := by
  induction ops generalizing h with
  | nil => simp
  | cons op ops ih => rw [run_cons, ih, step_isShutdown, List.mem_cons, or_assoc, @eq_comm _ op]

def shutdown (h : History α) : History α := { h with queue := h.queue.shutdown }

/-- Under the drop policies an operation does the same before and after a shutdown. -/
theorem step_shutdown (hp : h.queue.policy ≠ .block) (op : Operation α) :
    h.shutdown.step op = (h.step op).shutdown := by
  cases op with
  | offer a =>
    simp only [step, offer, shutdown, Bounded.offer_shutdown a hp]
    cases hans : (h.queue.offer a).answer <;> simp
  | dequeue =>
    simp only [step, shutdown, Bounded.dequeue_eq]
    rfl
  | dequeueLatest => rfl
  | shutdown => rfl

theorem run_shutdown (hsize : 0 < size) (hs : h.Sound size rule) (hp : rule ≠ .block)
    (ops : List (Operation α)) : h.shutdown.run ops = (h.run ops).shutdown := by
  induction ops generalizing h with
  | nil => rfl
  | cons op ops ih =>
    rw [run_cons, run_cons, step_shutdown (hs.policy ▸ hp), ih (step_sound hsize hs op)]

/-! ## The result -/

theorem dequeueLatest_newest (hs : h.Sound size rule) (hne : h.queue.items ≠ []) :
    ∃ a, h.accepted.getLast? = some a ∧ h.queue.dequeueLatest.1 = some a ∧
      h.queue.dequeueLatest.2.1.items = [] := by
  refine ⟨h.queue.items.getLast hne, ?_, List.getLast?_eq_some_getLast hne, rfl⟩
  rw [← hs.fifo, List.getLast?_append_of_ne_nil _ hne, List.getLast?_eq_some_getLast hne]

end Steps

/-- **A queue is a bounded first-in, first-out buffer**, for every capacity, policy and sequence of
operations:

* what has left it and what is in it are the accepted items in their order, and both counters are
  right;
* without removals the newest items stay;
* taking the latest item leaves nothing behind, and taking the front leaves the others;
* a shutdown ends every offer under `block`, and changes nothing under the drop policies;
* an offer that finds room goes to the back, and one that finds none is dealt with as the policy
  says. -/
theorem run_refines_fifo (capacity : Nat) (policy : Policy) (ops : List (Operation α)) :
    let h := (new capacity policy).run ops
    h.queue.items.length ≤ max capacity 1 ∧
    h.removed ++ h.queue.items = h.accepted ∧
    h.queue.accepted = h.accepted.length ∧
    h.queue.dropped = (match policy with
      | .dropOldest => h.evictions
      | .dropLatest => h.refusals
      | .block => 0) ∧
    (policy = .dropOldest → ∀ more : List (Operation α), (∀ op ∈ more, op.removes = false) →
      (h.run more).queue.items =
        (h.queue.items ++ more.filterMap Operation.item?).rtake (max capacity 1)) ∧
    (h.queue.items ≠ [] → ∃ a, h.accepted.getLast? = some a ∧
      h.queue.dequeueLatest.1 = some a ∧ h.queue.dequeueLatest.2.1.items = []) ∧
    (policy = .block → .shutdown ∈ ops → ∀ a, h.queue.offer a = ⟨.shutdown, h.queue, [a]⟩) ∧
    (policy ≠ .block → ∀ more : List (Operation α),
      (h.step .shutdown).run more =
        { h.run more with queue := { (h.run more).queue with isShutdown := true } }) ∧
    h.queue.dequeue = (h.queue.items.head?, { h.queue with items := h.queue.items.tail }) ∧
    (h.queue.items.length < max capacity 1 → (policy = .block → .shutdown ∉ ops) → ∀ a,
      h.queue.offer a =
        ⟨.accepted,
          { h.queue with items := h.queue.items ++ [a], accepted := h.queue.accepted + 1 }, []⟩) ∧
    (h.queue.items.length = max capacity 1 → (policy = .block → .shutdown ∉ ops) → ∀ a,
      h.queue.offer a = match policy with
        | .dropOldest =>
          ⟨.accepted, { h.queue with items := h.queue.items.tail ++ [a]
                                     accepted := h.queue.accepted + 1
                                     dropped := h.queue.dropped + 1 }, h.queue.items.take 1⟩
        | .dropLatest => ⟨.full, { h.queue with dropped := h.queue.dropped + 1 }, [a]⟩
        | .block => ⟨.wait, h.queue, []⟩) := by
  intro h
  have hsize : 0 < max capacity 1 := by omega
  have hs : h.Sound (max capacity 1) policy := run_sound hsize (new_sound capacity policy) ops
  have hdown : h.queue.isShutdown = true ↔ .shutdown ∈ ops :=
    (run_isShutdown _ ops).trans (by simp [new, Bounded.new])
  refine ⟨hs.bounded, hs.fifo, hs.accepted, ?_, ?_, dequeueLatest_newest hs, ?_, ?_,
    h.queue.dequeue_eq, ?_, ?_⟩
  · rw [hs.dropped]; cases policy <;> rfl
  · rintro rfl more hmore
    exact run_dropOldest hsize hs more hmore
  · intro hp hmem a
    exact Bounded.offer_refused a (hs.policy.trans hp) (hdown.mpr hmem)
  · intro hp more
    exact run_shutdown hsize hs hp more
  · intro hroom hopen a
    refine Bounded.offer_room a (hs.capacity.symm ▸ hroom) ?_
    rintro ⟨hp, hshut⟩
    exact hopen (hs.policy.symm.trans hp) (hdown.mp hshut)
  · intro hall hopen a
    have hfull : h.queue.capacity ≤ h.queue.length := (hs.capacity.trans hall.symm).le
    cases hp : policy with
    | dropOldest => exact Bounded.offer_evicts a hfull (hs.policy.trans hp)
    | dropLatest => exact Bounded.offer_full a hfull (hs.policy.trans hp)
    | block =>
      have hnot : ¬h.queue.isShutdown = true := fun hshut => hopen hp (hdown.mp hshut)
      exact Bounded.offer_waits a hfull (hs.policy.trans hp) (Bool.eq_false_iff.mpr hnot)

/-- A queue of two keeps the last two of three, and one that is shut down takes nothing. -/
theorem run_refines_fifo_pair :
    (((new 2 .dropOldest).run [.offer 1, .dequeue]).run
      [.offer 2, .offer 3, .offer 4]).queue.items = [3, 4] ∧
    let closed := ((new 1 .block).run [.offer 1, .shutdown]).queue
    closed.offer 2 = ⟨.shutdown, closed, [2]⟩ := by
  have hkept := (run_refines_fifo 2 .dropOldest [.offer 1, .dequeue]).2.2.2.2.1 rfl
    [.offer 2, .offer 3, .offer 4] (by simp [Operation.removes])
  have hclosed := (run_refines_fifo 1 .block [.offer 1, .shutdown]).2.2.2.2.2.2.1 rfl (by simp) 2
  exact ⟨hkept, hclosed⟩

end History
end Queue
end Oscilloscope
