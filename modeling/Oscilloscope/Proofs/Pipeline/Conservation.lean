import Oscilloscope.Proofs.Pipeline.Stages

/-!
# Oscilloscope.Proofs.Pipeline.Conservation

No frame of a running pipeline gets lost unseen, and none overtakes another.

`Session` runs a pipeline under any order of worker steps and polls and writes down what has become
of the frames that left it. `Session.flow` are the frames polled, then those in the last queue,
then those in the hand of the last worker, and so on back to the source.

* `inFlight_focus`: the frames around one worker, cut out of the whole pipeline.
* `Runtime.focus` and `Runtime.map_queues_apply`: what a step of one worker leaves alone.
* `Runtime.step_shifts`: what it does to the whole pipeline.
* `Session.step_sound`: what every step and every poll preserves.
* `Session.run_conserves`: order, conservation and losslessness after any run.
-/

namespace Oscilloscope
namespace Pipeline

variable {σ : Type}

/-! ## The frames inside a pipeline -/

def Slot.hand (s : Slot σ) : List Frame :=
  match s.tenancy with
  | .atWork w => w.phase.hand
  | _ => []

/-- The frames in the queues and in the hands, from the last queue back to the first worker. -/
def inFlight : List (Slot σ) → List (Queue.Bounded Frame) → List Frame
  | s :: slots, q :: queues => inFlight slots queues ++ (q.items ++ s.hand)
  | _, _ => []

theorem inFlight_cons (s : Slot σ) (slots : List (Slot σ)) (q : Queue.Bounded Frame)
    (queues : List (Queue.Bounded Frame)) :
    inFlight (s :: slots) (q :: queues) = inFlight slots queues ++ (q.items ++ s.hand) := rfl

/-- The frames around worker `k + 1` are next to each other; the others do not depend on them. -/
theorem inFlight_focus {k : Nat} {slots : List (Slot σ)} {queues : List (Queue.Bounded Frame)}
    {s : Slot σ} {q q₀ : Queue.Bounded Frame} (hs : slots[k + 1]? = some s)
    (hq : queues[k + 1]? = some q) (hq₀ : queues[k]? = some q₀) :
    ∃ before after,
      inFlight slots queues = before ++ (q.items ++ s.hand ++ q₀.items) ++ after ∧
      ∀ s' q' q₀', inFlight (slots.set (k + 1) s') ((queues.set (k + 1) q').set k q₀') =
        before ++ (q'.items ++ s'.hand ++ q₀'.items) ++ after := by
  -- On the place of the worker; the slots before it only add frames at the end.
  induction k generalizing slots queues with
  | zero =>
    match slots, queues, hs, hq, hq₀ with
    | s₀ :: s :: slots, q₀ :: q :: queues, rfl, rfl, rfl =>
      refine ⟨inFlight slots queues, s₀.hand, ?_, fun s' q' q₀' => ?_⟩
      · simp [inFlight]
      · simp [inFlight]
  | succ k ih =>
    match slots, queues, hs, hq, hq₀ with
    | s₁ :: slots, q₁ :: queues, hs, hq, hq₀ =>
      have hs' : slots[k + 1]? = some s := hs
      obtain ⟨before, after, hsame, hset⟩ := ih hs' hq hq₀
      refine ⟨before, after ++ (q₁.items ++ s₁.hand), ?_, fun s' q' q₀' => ?_⟩
      · simp [inFlight, hsame]
      · simp [inFlight, hset]

theorem inFlight_last {slots : List (Slot σ)} {queues : List (Queue.Bounded Frame)}
    {q : Queue.Bounded Frame} (hlen : queues.length = slots.length)
    (hq : queues.getLast? = some q) :
    ∃ after, inFlight slots queues = q.items ++ after ∧
      ∀ q', inFlight slots (queues.set (queues.length - 1) q') = q'.items ++ after := by
  induction queues generalizing slots with
  | nil => cases hq
  | cons q₁ queues ih =>
    match slots, hlen with
    | s₁ :: slots, hlen =>
      cases queues with
      | nil =>
        cases hq
        obtain rfl : slots = [] := by simpa using hlen.symm
        exact ⟨s₁.hand, rfl, fun q' => rfl⟩
      | cons q₂ queues =>
        have hlen' : (q₂ :: queues).length = slots.length := by simpa using hlen
        obtain ⟨after, hsame, hset⟩ := ih hlen' (by simpa using hq)
        refine ⟨after ++ (q₁.items ++ s₁.hand), ?_, fun q' => ?_⟩
        · rw [inFlight_cons, hsame, List.append_assoc]
        · have hset' := hset q'
          simp only [List.length_cons, Nat.add_sub_cancel] at hset'
          simp only [List.length_cons, Nat.add_sub_cancel, List.set_cons_succ, inFlight_cons]
          rw [hset', List.append_assoc]

/-! ## Steps of a pipeline in a line -/

def Slot.Keeps (P : σ → Prop) (limit : Nat) (s : Slot σ) : Prop :=
  ∃ w, s.tenancy = .atWork w ∧ w.Keeps P limit

/-- The number of frames that the source has made. -/
def Runtime.emitted (r : Runtime σ) : Nat := (r.slots.head?.map (·.made)).getD 0

def Runtime.inFlight (r : Runtime σ) : List Frame := Pipeline.inFlight r.slots r.queues

def Runtime.discards (r : Runtime σ) (i : Nat) : List Frame :=
  match r.slots[i]?.bind Slot.worker?, r.surroundings? i with
  | some w, some around => w.discards around
  | _, _ => []

/-- A running line: the source has numbered its frames so far without a hole, the other stages
forward, and no queue is shut down. -/
structure Runtime.InLine (b : Behavior σ) (r : Runtime σ) : Prop where
  stages : ∃ s rest, r.slots = s :: rest ∧ s.Keeps (EmitsFrom b s.made) 0 ∧
    ∀ x ∈ rest, x.Keeps (Forwards b) 1
  length : r.queues.length = r.slots.length
  opened : ∀ q ∈ r.queues, q.isShutdown = false ∧ 0 < q.capacity

/-- What one step of worker `i` does to a pipeline. -/
structure Runtime.Shifted (r : Runtime σ) (i : Nat) (r' : Runtime σ) : Prop where
  emitted : r.emitted ≤ r'.emitted
  order : List.Sublist (numbers r'.inFlight)
    (numbers r.inFlight ++ List.range' r.emitted (r'.emitted - r.emitted))
  kept : List.Perm (numbers (r'.inFlight ++ r.discards i))
    (numbers r.inFlight ++ List.range' r.emitted (r'.emitted - r.emitted))
  dropped : r'.queues.map (·.dropped) =
    (r.queues.map (·.dropped)).modify i (· + (r.discards i).length)
  policies : r'.queues.map (·.policy) = r.queues.map (·.policy)

theorem Runtime.exists_of_step {b : Behavior σ} {r r' : Runtime σ} {i : Nat}
    (h : r.step b i = some r') :
    ∃ s w around m, r.slots[i]? = some s ∧ s.tenancy = .atWork w ∧
      r.surroundings? i = some around ∧ w.step b around = some m ∧ r' = r.apply i s m ∧
      r.discards i = w.discards around := by
  simp only [Runtime.step, Option.bind_eq_bind, Option.bind_eq_some_iff, Option.some.injEq] at h
  obtain ⟨s, hs, w, hw, around, haround, m, hm, rfl⟩ := h
  refine ⟨s, w, around, m, hs, ?_, haround, hm, rfl, ?_⟩
  · unfold Slot.worker? at hw
    split at hw
    · cases hw; assumption
    · cases hw
  · simp [Runtime.discards, hs, hw, haround]

theorem Runtime.output_of_surroundings {r : Runtime σ} {i : Nat} {around : Surroundings}
    (h : r.surroundings? i = some around) : r.queues[i]? = some around.output := by
  simp only [surroundings?, Option.bind_eq_bind, Option.bind_eq_some_iff, Option.some.injEq] at h
  obtain ⟨q, hq, rfl⟩ := h
  exact hq

theorem Runtime.input_zero {r : Runtime σ} {around : Surroundings}
    (h : r.surroundings? 0 = some around) : around.input = none := by
  simp only [surroundings?, Option.bind_eq_bind, Option.bind_eq_some_iff, Option.some.injEq] at h
  obtain ⟨q, hq, rfl⟩ := h
  rfl

theorem Runtime.input_succ {r : Runtime σ} {k : Nat} {around : Surroundings}
    (h : r.surroundings? (k + 1) = some around) :
    ∃ q₀, r.queues[k]? = some q₀ ∧ around.input = some q₀ := by
  simp only [surroundings?, Option.bind_eq_bind, Option.bind_eq_some_iff, Option.some.injEq] at h
  obtain ⟨q, hq, rfl⟩ := h
  have hlt := (List.getElem?_eq_some_iff.mp hq).1
  have hq₀ : r.queues[k]? = some r.queues[k] := List.getElem?_eq_getElem (Nat.lt_of_succ_lt hlt)
  exact ⟨_, hq₀, hq₀⟩

theorem Runtime.mem_of_input {r : Runtime σ} {i : Nat} {around : Surroundings}
    {q : Queue.Bounded Frame} (h : r.surroundings? i = some around)
    (hin : around.input = some q) : q ∈ r.queues := by
  cases i with
  | zero =>
    rw [input_zero h] at hin
    cases hin
  | succ k =>
    obtain ⟨q₀, hq₀, hinput⟩ := input_succ h
    rw [hinput] at hin
    cases hin
    exact List.mem_of_getElem? hq₀

theorem slotAfter_hand (s : Slot σ) (m : Move σ) :
    (Runtime.slotAfter s m).hand = m.worker.phase.hand := rfl

theorem map_set_set {β : Type} {f : Queue.Bounded Frame → β} {g : β → β}
    {queues : List (Queue.Bounded Frame)} {k : Nat} {q q' q₀ q₀' : Queue.Bounded Frame}
    (hq : queues[k + 1]? = some q) (hq₀ : queues[k]? = some q₀) (h : f q' = g (f q))
    (h₀ : f q₀' = f q₀) :
    ((queues.set (k + 1) q').set k q₀').map f = (queues.map f).modify (k + 1) g := by
  obtain ⟨hlt, rfl⟩ := List.getElem?_eq_some_iff.mp hq
  obtain ⟨hlt₀, rfl⟩ := List.getElem?_eq_some_iff.mp hq₀
  apply List.ext_getElem?
  intro j
  rw [List.getElem?_map, List.getElem?_modify, List.getElem?_map, List.getElem?_set,
    List.getElem?_set, List.length_set]
  by_cases hj : k + 1 = j
  · subst hj
    simp [h, hlt]
  · by_cases hk : k = j
    · subst hk
      simp [h₀, hlt₀]
    · simp [hj, hk]

theorem perm_middle_append {α : Type} {before after middle lost all : List α}
    (h : List.Perm (middle ++ lost) all) :
    List.Perm (before ++ middle ++ after ++ lost) (before ++ all ++ after) := by
  have hswap : List.Perm (after ++ lost) (lost ++ after) := List.perm_append_comm
  calc before ++ middle ++ after ++ lost
    _ = before ++ (middle ++ (after ++ lost)) := by simp
    List.Perm _ (before ++ (middle ++ (lost ++ after))) :=
      (hswap.append_left middle).append_left before
    _ = before ++ (middle ++ lost) ++ after := by simp
    List.Perm _ (before ++ all ++ after) := (h.append_left before).append_right after

section Step

variable {b : Behavior σ} {r r' : Runtime σ} {i : Nat} {s : Slot σ} {w : Worker σ}
  {around : Surroundings} {m : Move σ} {new : List Nat}

@[simp] theorem Runtime.slots_apply :
    (r.apply i s m).slots = r.slots.set i (slotAfter s m) := rfl

theorem Runtime.length_queues_apply : (r.apply i s m).queues.length = r.queues.length := by
  unfold apply
  cases m.input with
  | none => simp
  | some q => simp

theorem Runtime.mem_queues_apply {q : Queue.Bounded Frame} (h : q ∈ (r.apply i s m).queues) :
    q ∈ r.queues ∨ q = m.output ∨ m.input = some q := by
  unfold apply at h
  cases hin : m.input with
  | none =>
    simp only [hin] at h
    rcases List.mem_or_eq_of_mem_set h with h | h
    · exact .inl h
    · exact .inr (.inl h)
  | some q₀ =>
    simp only [hin] at h
    rcases List.mem_or_eq_of_mem_set h with h | rfl
    · rcases List.mem_or_eq_of_mem_set h with h | h
      · exact .inl h
      · exact .inr (.inl h)
    · exact .inr (.inr rfl)

/-- The frames around a worker that makes a step are next to each other, before and after it. For
the source there is nothing behind them. -/
theorem Runtime.focus (hs : r.slots[i]? = some s) (hw : s.tenancy = .atWork w)
    (haround : r.surroundings? i = some around)
    (hin : ∃ items, m.input = around.input.map fun q => { q with items }) :
    ∃ before after, r.inFlight = before ++ w.flow around ++ after ∧
      (r.apply i s m).inFlight = before ++ m.flow ++ after ∧ (i = 0 → after = []) := by
  have hq := output_of_surroundings haround
  obtain ⟨items, hin⟩ := hin
  cases i with
  | zero =>
    have hinput := input_zero haround
    rw [hinput, Option.map_none] at hin
    cases hslots : r.slots with
    | nil => rw [hslots] at hs; cases hs
    | cons s₀ rest =>
      cases hqueues : r.queues with
      | nil => rw [hqueues] at hq; cases hq
      | cons q queues =>
        rw [hslots] at hs
        rw [hqueues] at hq
        cases hs
        cases hq
        refine ⟨Pipeline.inFlight rest queues, [], ?_, ?_, fun _ => rfl⟩
        · simp [inFlight, hslots, hqueues, inFlight_cons, Worker.flow, Slot.hand, hw, hinput]
        · simp [inFlight, apply, hslots, hqueues, inFlight_cons, Move.flow, slotAfter_hand, hin]
  | succ k =>
    obtain ⟨q₀, hq₀, hinput⟩ := input_succ haround
    rw [hinput, Option.map_some] at hin
    obtain ⟨before, after, hfocus, hset⟩ := inFlight_focus hs hq hq₀
    refine ⟨before, after, ?_, ?_, fun h => absurd h (Nat.succ_ne_zero k)⟩
    · simp [inFlight, hfocus, Worker.flow, Slot.hand, hw, hinput]
    · simp [inFlight, apply, hin, hset, Move.flow, slotAfter_hand]

/-- What a step does to one feature of the queues that does not depend on their items. -/
theorem Runtime.map_queues_apply {β : Type} {f : Queue.Bounded Frame → β} {g : β → β}
    (haround : r.surroundings? i = some around)
    (hin : ∃ items, m.input = around.input.map fun q => { q with items })
    (hout : f m.output = g (f around.output)) (hf : ∀ q items, f { q with items } = f q) :
    (r.apply i s m).queues.map f = (r.queues.map f).modify i g := by
  have hq := output_of_surroundings haround
  obtain ⟨items, hin⟩ := hin
  cases i with
  | zero =>
    have hinput := input_zero haround
    rw [hinput, Option.map_none] at hin
    cases hqueues : r.queues with
    | nil => rw [hqueues] at hq; cases hq
    | cons q queues =>
      rw [hqueues] at hq
      cases hq
      simp [apply, hin, hqueues, hout]
  | succ k =>
    obtain ⟨q₀, hq₀, hinput⟩ := input_succ haround
    rw [hinput, Option.map_some] at hin
    have hqueues : (r.apply (k + 1) s m).queues =
        (r.queues.set (k + 1) m.output).set k { q₀ with items } := by simp [apply, hin]
    rw [hqueues]
    exact map_set_set hq hq₀ hout (hf q₀ items)

/-- The worker of a line that makes a step obeys the law, and only the source makes new numbers. -/
theorem Runtime.step_moved (hr : r.InLine b) (hs : r.slots[i]? = some s)
    (hw : s.tenancy = .atWork w) (haround : r.surroundings? i = some around)
    (hm : w.step b around = some m) :
    (∃ s' rest, (r.apply i s m).slots = s' :: rest ∧ s'.Keeps (EmitsFrom b s'.made) 0 ∧
      ∀ x ∈ rest, x.Keeps (Forwards b) 1) ∧
    ∃ k, (r.apply i s m).emitted = r.emitted + k ∧ (i ≠ 0 → k = 0) ∧
      Moved w around m (List.range' r.emitted k) := by
  obtain ⟨⟨s₀, rest, hslots, ⟨w₀, hw₀, hkeeps⟩, hrest⟩, -, hopen⟩ := hr
  obtain ⟨hdown, hroom⟩ := hopen around.output
    (List.mem_of_getElem? (output_of_surroundings haround))
  rw [hslots] at hs
  cases i with
  | zero =>
    obtain rfl : s₀ = s := by simpa using hs
    obtain rfl : w₀ = w := by simpa [hw₀] using hw
    obtain ⟨hkeeps', hmoved⟩ := Worker.step_emits (input_zero haround) hdown hroom hkeeps hm
    have hold : r.emitted = s₀.made := by simp [emitted, hslots]
    refine ⟨⟨slotAfter s₀ m, rest, by simp [hslots], ⟨m.worker, rfl, hkeeps'⟩, hrest⟩, m.made,
      ?_, fun h => absurd rfl h, ?_⟩
    · simp [emitted, hslots, slotAfter]
    · rw [hold]; exact hmoved
  | succ k =>
    have hmem : s ∈ rest := List.mem_of_getElem? (by simpa using hs)
    obtain ⟨w', hw', hkeeps'⟩ := hrest s hmem
    obtain rfl : w = w' := by simpa [hw] using hw'
    obtain ⟨hkeeps'', hmoved⟩ := Worker.step_forwards hdown hroom hkeeps' hm
    refine ⟨⟨s₀, rest.set k (slotAfter s m), by simp [hslots], ⟨w₀, hw₀, hkeeps⟩, ?_⟩, 0, ?_,
      fun _ => rfl, hmoved⟩
    · intro x hx
      rcases List.mem_or_eq_of_mem_set hx with hx | rfl
      · exact hrest x hx
      · exact ⟨m.worker, rfl, hkeeps''⟩
    · simp [emitted, hslots]

theorem Runtime.step_shifts (hr : r.InLine b) (h : r.step b i = some r') :
    r'.InLine b ∧ r.Shifted i r' := by
  obtain ⟨s, w, around, m, hs, hw, haround, hm, rfl, hdisc⟩ := exists_of_step h
  obtain ⟨hstages, k, hemitted, hk, horder, hkept, ⟨items, accepted, hout⟩, hin⟩ :=
    step_moved hr hs hw haround hm
  obtain ⟨before, after, hflow, hflow', hafter⟩ := focus hs hw haround hin
  have hbehind := hr.opened around.output (List.mem_of_getElem? (output_of_surroundings haround))
  constructor
  · refine ⟨hstages, ?_, ?_⟩
    · rw [length_queues_apply, slots_apply, List.length_set, hr.length]
    · intro q hq
      rcases mem_queues_apply hq with hq | rfl | hq
      · exact hr.opened q hq
      · rw [hout]; exact hbehind
      · obtain ⟨items₀, hin⟩ := hin
        rw [hq] at hin
        obtain ⟨q₀, hq₀, rfl⟩ := Option.map_eq_some_iff.mp hin.symm
        exact hr.opened q₀ (mem_of_input haround hq₀)
  · -- New numbers come behind all others: only the source makes them.
    have hnew : (r.apply i s m).emitted - r.emitted = k := by rw [hemitted, Nat.add_sub_cancel_left]
    have hlast : numbers after ++ List.range' r.emitted k =
        List.range' r.emitted k ++ numbers after := by
      by_cases hi : i = 0
      · rw [hafter hi, numbers_nil, List.nil_append, List.append_nil]
      · rw [hk hi, List.range'_zero, List.nil_append, List.append_nil]
    refine ⟨by omega, ?_, ?_, ?_, ?_⟩
    · rw [hnew, hflow, hflow']
      simp only [numbers_append, List.append_assoc, hlast]
      rw [← List.append_assoc (numbers (w.flow around))]
      exact (List.Sublist.refl _).append (horder.append (List.Sublist.refl _))
    · rw [hnew, hflow, hflow', hdisc]
      rw [numbers_append] at hkept
      simp only [numbers_append, List.append_assoc, hlast]
      simpa only [List.append_assoc] using perm_middle_append hkept
    · rw [hdisc]
      exact map_queues_apply haround hin (by rw [hout]) fun _ _ => rfl
    · have hpolicy : m.output.policy = id around.output.policy := by rw [hout]; rfl
      refine (map_queues_apply haround hin hpolicy fun _ _ => rfl).trans (List.modify_id _ _)

theorem Runtime.discards_eq_nil {i : Nat} (hr : r.InLine b)
    (hblock : ∀ q ∈ r.queues, q.policy = .block) : r.discards i = [] := by
  unfold discards
  split
  · rename_i w around _ haround
    have hmem := List.mem_of_getElem? (output_of_surroundings haround)
    exact discards_block (hr.opened _ hmem).1 (hblock _ hmem)
  · rfl

end Step

/-! ## Polls -/

section Polls

variable {b : Behavior σ} {r : Runtime σ} {q q' : Queue.Bounded Frame}

def Runtime.withLast (r : Runtime σ) (q : Queue.Bounded Frame) : Runtime σ :=
  { r with queues := r.queues.set (r.queues.length - 1) q }

/-- The frames that taking the newest frame discards. -/
def Runtime.stale (r : Runtime σ) : List Frame :=
  match r.queues.getLast? with
  | some q => q.items.dropLast
  | none => []

theorem Runtime.poll_of_last (hq : r.queues.getLast? = some q) :
    r.poll = (q.items.head?, r.withLast { q with items := q.items.tail }) := by
  simp only [poll, hq, Queue.Bounded.dequeue_eq]
  rfl

theorem Runtime.pollLatest_of_last (hq : r.queues.getLast? = some q) :
    r.pollLatest = (q.items.getLast?, r.withLast { q with items := [] }) := by
  simp only [pollLatest, hq]
  rfl

theorem map_withLast {β : Type} {f : Queue.Bounded Frame → β} (hq : r.queues.getLast? = some q)
    (hf : f q' = f q) : (r.withLast q').queues.map f = r.queues.map f := by
  rw [List.getLast?_eq_getElem?] at hq
  obtain ⟨hlt, rfl⟩ := List.getElem?_eq_some_iff.mp hq
  have hlt' : r.queues.length - 1 < (r.queues.map f).length := by simpa using hlt
  simp only [Runtime.withLast, List.map_set, hf]
  simpa using List.set_getElem_self hlt'

theorem Runtime.InLine.withLast (hr : r.InLine b) (hdown : q'.isShutdown = false)
    (hroom : 0 < q'.capacity) : (r.withLast q').InLine b where
  stages := hr.stages
  length := by simpa [Runtime.withLast] using hr.length
  opened := by
    intro x hx
    rcases List.mem_or_eq_of_mem_set hx with hx | rfl
    · exact hr.opened x hx
    · exact ⟨hdown, hroom⟩

end Polls

/-! ## Sessions -/

/-- What can happen to a running pipeline before it is stopped. -/
inductive Act where
  /-- Worker `i` makes a step, if it can. -/
  | work (i : Nat)
  | poll
  | pollLatest
deriving DecidableEq, Repr

/-- A running pipeline and what has become of the frames that left it. -/
structure Session (σ : Type) where
  runtime : Runtime σ
  /-- The frames that the caller got, in order. -/
  polled : List Frame := []
  /-- The frames discarded by taking the newest. -/
  stale : List Frame := []
  /-- For each queue, the frames that it dropped. -/
  dropped : List (List Frame)

namespace Session

def new (r : Runtime σ) : Session σ := { runtime := r, dropped := r.queues.map fun _ => [] }

/-- A worker that cannot make a step leaves everything as it is. -/
def step (b : Behavior σ) (s : Session σ) : Act → Session σ
  | .work i =>
    match s.runtime.step b i with
    | some r => { s with runtime := r, dropped := s.dropped.modify i (· ++ s.runtime.discards i) }
    | none => s
  | .poll =>
    { s with runtime := s.runtime.poll.2, polled := s.polled ++ s.runtime.poll.1.toList }
  | .pollLatest =>
    { s with runtime := s.runtime.pollLatest.2
             polled := s.polled ++ s.runtime.pollLatest.1.toList
             stale := s.stale ++ s.runtime.stale }

def run (b : Behavior σ) (s : Session σ) (acts : List Act) : Session σ := acts.foldl (step b) s

/-- The numbers of the frames polled, queued and held, from the oldest poll back to the source. -/
def flow (s : Session σ) : List Nat := numbers (s.polled ++ s.runtime.inFlight)

/-- What every step and every poll preserves. -/
structure Sound (b : Behavior σ) (s : Session σ) : Prop where
  inLine : s.runtime.InLine b
  order : s.flow.Pairwise (· < ·)
  all : List.Perm (s.flow ++ numbers s.dropped.flatten ++ numbers s.stale)
    (List.range s.runtime.emitted)
  counts : s.runtime.queues.map (·.dropped) = s.dropped.map List.length

theorem perm_flatten_modify {α : Type} {ls : List (List α)} {i : Nat} (l : List α)
    (hi : i < ls.length) : List.Perm (ls.modify i (· ++ l)).flatten (ls.flatten ++ l) := by
  induction ls generalizing i with
  | nil => cases hi
  | cons head tail ih =>
    cases i with
    | zero =>
      simp only [List.modify_zero_cons, List.flatten_cons, List.append_assoc]
      exact List.Perm.append_left head List.perm_append_comm
    | succ i =>
      simp only [List.modify_succ_cons, List.flatten_cons, List.append_assoc]
      exact List.Perm.append_left head (ih (by simpa using hi))

theorem map_length_modify {α : Type} (ls : List (List α)) (i : Nat) (l : List α) :
    (ls.modify i (· ++ l)).map List.length = (ls.map List.length).modify i (· + l.length) := by
  induction ls generalizing i with
  | nil => simp
  | cons head tail ih =>
    cases i with
    | zero => simp
    | succ i => simp [ih]

section Steps

variable {b : Behavior σ} {s : Session σ}

theorem lt_of_mem_flow (hs : s.Sound b) {n : Nat} (hn : n ∈ s.flow) : n < s.runtime.emitted := by
  have hmem := hs.all.subset (List.mem_append_left _ (List.mem_append_left _ hn))
  exact List.mem_range.mp hmem

theorem range_append_range' {m n : Nat} (h : m ≤ n) :
    List.range m ++ List.range' m (n - m) = List.range n := by
  have happ := List.range'_append_1 (s := 0) (m := m) (n := n - m)
  rw [Nat.zero_add, Nat.add_sub_cancel' h] at happ
  rw [List.range_eq_range', List.range_eq_range', happ]

theorem order_append (hs : s.Sound b) (k : Nat) :
    (s.flow ++ List.range' s.runtime.emitted k).Pairwise (· < ·) := by
  refine List.pairwise_append.mpr ⟨hs.order, List.pairwise_lt_range', ?_⟩
  intro x hx y hy
  have hxm : x < s.runtime.emitted := lt_of_mem_flow hs hx
  have hym : s.runtime.emitted ≤ y := (List.mem_range'_1.mp hy).1
  omega

theorem work_sound (hs : s.Sound b) (i : Nat) : (s.step b (.work i)).Sound b := by
  simp only [step]
  split
  · rename_i r hr
    obtain ⟨hline, hmono, horder, hkept, hdropped, -⟩ := Runtime.step_shifts hs.inLine hr
    have hi : i < s.dropped.length := by
      obtain ⟨x, -, -, -, hx, -⟩ := Runtime.exists_of_step hr
      have hlt := (List.getElem?_eq_some_iff.mp hx).1
      have hlen := congrArg List.length hs.counts
      simp only [List.length_map] at hlen
      rw [← hlen, hs.inLine.length]
      exact hlt
    refine ⟨hline, ?_, ?_, ?_⟩
    · refine (order_append hs (r.emitted - s.runtime.emitted)).sublist ?_
      simp only [flow, numbers_append, List.append_assoc]
      exact (List.Sublist.refl _).append horder
    · have hflat : List.Perm (numbers (s.dropped.modify i (· ++ s.runtime.discards i)).flatten)
          (numbers s.dropped.flatten ++ numbers (s.runtime.discards i)) := by
        rw [← numbers_append]
        exact (perm_flatten_modify _ hi).map _
      have hall := hs.all
      rw [← range_append_range' hmono]
      -- Count every number on both sides.
      rw [List.perm_iff_count] at hflat hkept hall ⊢
      intro n
      have h₁ := hflat n
      have h₂ := hkept n
      have h₃ := hall n
      simp only [flow, numbers_append, List.count_append] at h₁ h₂ h₃ ⊢
      omega
    · rw [hdropped, hs.counts, map_length_modify]
  · exact hs

/-- The caller takes some frames out of the last queue, in order, and some are discarded. -/
theorem take_sound {q : Queue.Bounded Frame} {taken items lost : List Frame} (hs : s.Sound b)
    (hq : s.runtime.queues.getLast? = some q) (horder : List.Sublist (taken ++ items) q.items)
    (hkept : List.Perm (taken ++ items ++ lost) q.items) :
    Sound b { s with runtime := s.runtime.withLast { q with items }
                     polled := s.polled ++ taken
                     stale := s.stale ++ lost } := by
  obtain ⟨after, hflow, hset⟩ := inFlight_last hs.inLine.length hq
  have hold : s.runtime.inFlight = q.items ++ after := hflow
  have hnew : (s.runtime.withLast { q with items }).inFlight = items ++ after :=
    hset { q with items }
  obtain ⟨hdown, hroom⟩ := hs.inLine.opened q (List.mem_of_getLast? hq)
  refine ⟨hs.inLine.withLast hdown hroom, ?_, ?_, ?_⟩
  · refine hs.order.sublist ?_
    simp only [flow, hold, hnew, List.append_assoc]
    rw [← List.append_assoc taken]
    exact ((List.Sublist.refl _).append (horder.append (List.Sublist.refl _))).map _
  · have hkept' : List.Perm (numbers (taken ++ items ++ lost)) (numbers q.items) := hkept.map _
    have hall := hs.all
    rw [List.perm_iff_count] at hkept' hall ⊢
    intro n
    have h₁ := hkept' n
    have h₂ := hall n
    simp only [flow, hold, hnew, numbers_append, List.count_append] at h₁ h₂ ⊢
    have hsame : (s.runtime.withLast { q with items }).emitted = s.runtime.emitted := rfl
    rw [hsame]
    omega
  · refine (map_withLast hq ?_).trans hs.counts
    rfl

theorem poll_sound (hs : s.Sound b) : (s.step b .poll).Sound b := by
  cases hq : s.runtime.queues.getLast? with
  | none =>
    have hsame : s.runtime.poll = (none, s.runtime) := by simp [Runtime.poll, hq]
    simpa [step, hsame] using hs
  | some q =>
    have hitems : q.items.head?.toList ++ q.items.tail = q.items := by cases q.items <;> rfl
    have horder : List.Sublist (q.items.head?.toList ++ q.items.tail) q.items := by rw [hitems]
    have hkept : List.Perm (q.items.head?.toList ++ q.items.tail ++ []) q.items := by
      rw [List.append_nil, hitems]
    have htake := take_sound hs hq horder hkept
    simpa [step, Runtime.poll_of_last hq] using htake

theorem pollLatest_sound (hs : s.Sound b) : (s.step b .pollLatest).Sound b := by
  cases hq : s.runtime.queues.getLast? with
  | none =>
    have hsame : s.runtime.pollLatest = (none, s.runtime) := by simp [Runtime.pollLatest, hq]
    simpa [step, hsame, Runtime.stale, hq] using hs
  | some q =>
    have hitems : q.items.dropLast ++ q.items.getLast?.toList = q.items := q.items_dequeueLatest
    have hkept : List.Perm (q.items.getLast?.toList ++ [] ++ q.items.dropLast) q.items := by
      rw [List.append_nil]
      exact List.perm_append_comm.trans (.of_eq hitems)
    have horder : List.Sublist (q.items.getLast?.toList ++ []) q.items := by
      rw [List.append_nil]
      have hsub := List.sublist_append_right q.items.dropLast q.items.getLast?.toList
      rwa [hitems] at hsub
    have htake := take_sound hs hq horder hkept
    simpa [step, Runtime.pollLatest_of_last hq, Runtime.stale, hq] using htake

theorem step_sound (hs : s.Sound b) (act : Act) : (s.step b act).Sound b := by
  cases act with
  | work i => exact work_sound hs i
  | poll => exact poll_sound hs
  | pollLatest => exact pollLatest_sound hs

theorem run_sound (hs : s.Sound b) (acts : List Act) : (s.run b acts).Sound b := by
  induction acts generalizing s with
  | nil => exact hs
  | cons act acts ih => exact ih (step_sound hs act)

/-! ## Losslessness -/

/-- Every queue makes its producer wait, and nothing has been dropped or discarded. -/
structure Lossless (s : Session σ) : Prop where
  block : ∀ q ∈ s.runtime.queues, q.policy = .block
  dropped : s.dropped.flatten = []
  stale : s.stale = []

theorem policy_of_map_eq {r r' : Runtime σ}
    (h : r'.queues.map (·.policy) = r.queues.map (·.policy))
    (hblock : ∀ q ∈ r.queues, q.policy = .block) : ∀ q ∈ r'.queues, q.policy = .block := by
  intro q hq
  have hmem : q.policy ∈ r'.queues.map (·.policy) := List.mem_map_of_mem hq
  rw [h] at hmem
  obtain ⟨q₀, hq₀, heq⟩ := List.mem_map.mp hmem
  exact heq ▸ hblock q₀ hq₀

theorem step_lossless (hs : s.Sound b) (hl : s.Lossless) {act : Act} (hact : act ≠ .pollLatest) :
    (s.step b act).Lossless := by
  cases act with
  | pollLatest => exact absurd rfl hact
  | work i =>
    simp only [step]
    split
    · rename_i r hr
      obtain ⟨-, hshift⟩ := Runtime.step_shifts hs.inLine hr
      have hnil : s.runtime.discards i = [] := Runtime.discards_eq_nil hs.inLine hl.block
      refine ⟨policy_of_map_eq hshift.policies hl.block, ?_, hl.stale⟩
      simp only [hnil, List.append_nil]
      rw [show s.dropped.modify i (fun l => l) = s.dropped from List.modify_id _ _]
      exact hl.dropped
    · exact hl
  | poll =>
    refine ⟨?_, hl.dropped, hl.stale⟩
    cases hq : s.runtime.queues.getLast? with
    | none =>
      have hsame : s.runtime.poll = (none, s.runtime) := by simp [Runtime.poll, hq]
      simpa [step, hsame] using hl.block
    | some q =>
      simp only [step, Runtime.poll_of_last hq]
      refine policy_of_map_eq (map_withLast hq ?_) hl.block
      rfl

theorem run_lossless (hs : s.Sound b) (hl : s.Lossless) {acts : List Act}
    (hacts : .pollLatest ∉ acts) : (s.run b acts).Lossless := by
  induction acts generalizing s with
  | nil => exact hl
  | cons act acts ih =>
    simp only [List.mem_cons, not_or] at hacts
    exact ih (step_sound hs act) (step_lossless hs hl fun h => hacts.1 h.symm) hacts.2

end Steps

/-! ## The beginning -/

end Session

/-! ## From the start on -/

/-- The stage of the slot is at home, and `P` holds of it. -/
def Slot.Houses (P : σ → Prop) (s : Slot σ) : Prop := ∃ stage, s.tenancy = .home stage ∧ P stage

/-- A line at rest: the first stage makes frames numbered from zero on, the others forward. -/
def Runtime.IsLine (b : Behavior σ) (r : Runtime σ) : Prop :=
  ∃ s rest, r.slots = s :: rest ∧ s.Houses (EmitsFrom b 0) ∧ ∀ x ∈ rest, x.Houses (Forwards b)

theorem Slot.Houses.launch {P : σ → Prop} {s : Slot σ} (h : s.Houses P) (limit : Nat) :
    s.launch.Keeps P limit ∧ s.launch.made = 0 ∧ s.launch.hand = [] := by
  obtain ⟨stage, hhome, hP⟩ := h
  have hlaunch : s.launch = { s with tenancy := .atWork { stage }, made := 0, state := .idle } := by
    simp [Slot.launch, hhome]
  rw [hlaunch]
  exact ⟨⟨{ stage }, rfl, .inr ⟨hP, trivial⟩⟩, rfl, rfl⟩

theorem Runtime.eq_of_start {r₀ r : Runtime σ} (h : r₀.start = .ok r) :
    r.slots = r₀.slots.map Slot.launch ∧
      (r.queues = r₀.slots.map fun s => Queue.Bounded.new s.options.capacity s.options.policy) ∧
      r.exits = r₀.exits := by
  unfold start at h
  split at h
  · cases h
  · split at h
    · cases h
    · split at h
      · cases h
      · cases h; exact ⟨rfl, rfl, rfl⟩

theorem inFlight_eq_nil {slots : List (Slot σ)} {queues : List (Queue.Bounded Frame)}
    (hslots : ∀ s ∈ slots, s.hand = []) (hqueues : ∀ q ∈ queues, q.items = []) :
    inFlight slots queues = [] := by
  induction slots generalizing queues with
  | nil => cases queues <;> rfl
  | cons s slots ih =>
    cases queues with
    | nil => rfl
    | cons q queues =>
      rw [inFlight_cons, hqueues q List.mem_cons_self, hslots s List.mem_cons_self,
        ih (fun x hx => hslots x (List.mem_cons_of_mem _ hx))
          fun x hx => hqueues x (List.mem_cons_of_mem _ hx)]
      rfl

theorem Session.new_sound {b : Behavior σ} {r₀ r : Runtime σ} (hline : r₀.IsLine b)
    (hstart : r₀.start = .ok r) : (Session.new r).Sound b := by
  obtain ⟨s, rest, hslots₀, hsource, hrest⟩ := hline
  obtain ⟨hslots, hqueues, -⟩ := Runtime.eq_of_start hstart
  have hslots' : r.slots = s.launch :: rest.map Slot.launch := by rw [hslots, hslots₀]; rfl
  obtain ⟨hkeeps, hmade, hhand⟩ := hsource.launch 0
  have hnone : r.emitted = 0 := by simp [Runtime.emitted, hslots', hmade]
  have hempty : r.inFlight = [] := by
    apply inFlight_eq_nil
    · intro x hx
      rw [hslots', List.mem_cons] at hx
      rcases hx with rfl | hx
      · exact hhand
      · obtain ⟨y, hy, rfl⟩ := List.mem_map.mp hx
        exact ((hrest y hy).launch 1).2.2
    · intro q hq
      rw [hqueues] at hq
      obtain ⟨x, -, rfl⟩ := List.mem_map.mp hq
      rfl
  have hflow : (Session.new r).flow = [] := by simp [Session.flow, Session.new, hempty]
  refine ⟨⟨⟨s.launch, rest.map Slot.launch, hslots', ?_, ?_⟩, ?_, ?_⟩, ?_, ?_, ?_⟩
  · rw [hmade]; exact hkeeps
  · intro x hx
    obtain ⟨y, hy, rfl⟩ := List.mem_map.mp hx
    exact ((hrest y hy).launch 1).1
  · simp [Session.new, hslots, hqueues]
  · intro q hq
    have hq' : q ∈ r.queues := hq
    rw [hqueues] at hq'
    obtain ⟨x, -, rfl⟩ := List.mem_map.mp hq'
    exact ⟨rfl, Nat.lt_of_lt_of_le Nat.one_pos (Nat.le_max_right _ _)⟩
  · rw [hflow]; exact List.Pairwise.nil
  · have hdropped : (Session.new r).dropped.flatten = [] := by simp [Session.new]
    rw [hflow, hdropped, show (Session.new r).runtime.emitted = 0 from hnone]
    exact List.Perm.refl _
  · simp [Session.new, hqueues, Queue.Bounded.new, Function.comp_def]

/-- **Conservation and order.** In any run of a line before it is stopped, under any order of
worker steps and polls:

* the frames polled, queued and held are in order from the caller back to the source;
* every frame made is in exactly one place: polled, queued, held, dropped by one queue, or
  discarded by taking the newest;
* every queue counts exactly the frames it dropped;
* if every queue makes its producer wait and only `poll` is used, no frame is missing. -/
theorem Session.run_conserves {b : Behavior σ} {r₀ r : Runtime σ} (hline : r₀.IsLine b)
    (hstart : r₀.start = .ok r) (acts : List Act) :
    let s := (Session.new r).run b acts
    s.flow.Pairwise (· < ·) ∧
    List.Perm (s.flow ++ numbers s.dropped.flatten ++ numbers s.stale)
      (List.range s.runtime.emitted) ∧
    s.runtime.queues.map (·.dropped) = s.dropped.map List.length ∧
    ((∀ q ∈ r.queues, q.policy = .block) → .pollLatest ∉ acts →
      s.flow = List.range s.runtime.emitted) := by
  intro s
  have hnew : (Session.new r).Sound b := new_sound hline hstart
  have hs : s.Sound b := run_sound hnew acts
  refine ⟨hs.order, hs.all, hs.counts, ?_⟩
  intro hblock hacts
  have hl : (Session.new r).Lossless := ⟨hblock, by simp [Session.new], rfl⟩
  obtain ⟨-, hdropped, hstale⟩ : s.Lossless := run_lossless hnew hl hacts
  -- Two increasing lists with the same members are the same.
  have hall : List.Perm s.flow (List.range s.runtime.emitted) := by
    simpa [hdropped, hstale] using hs.all
  exact hall.eq_of_pairwise (fun a b _ _ hab hba => by omega) hs.order List.pairwise_lt_range

/-- Two blocks and a decimator, with room for one frame in each queue. -/
def relay : Runtime Stage where
  slots :=
    [.new Stage.behavior (.intake { source := .manual { channels := 1, rate := .zero, blocks :=
        [{ sequence := 0, channels := 1, samplesPerChannel := 2, samples := [5, -5] },
         { sequence := 1, channels := 1, samplesPerChannel := 2, samples := [7, -7] }] } })
      ⟨1, .block⟩,
     .new Stage.behavior (.decimator (.new .minMax 1)) ⟨1, .block⟩]

theorem relay_isLine : relay.IsLine Stage.behavior := by
  refine ⟨_, _, rfl, ⟨_, rfl, ?_⟩, ?_⟩
  · exact Numbered.emits (n := 0) (.cons (n := 0) rfl rfl (.cons (n := 1) rfl rfl (.nil 2))) {}
  · intro x hx
    obtain rfl := List.mem_singleton.mp hx
    exact ⟨_, rfl, forwards_decimator _⟩

theorem run_conserves_relay : ∃ r, relay.start = .ok r ∧
    let s := (Session.new r).run Stage.behavior
      (List.replicate 12 (.work 0) ++ List.replicate 6 (.work 1) ++ [.poll, .work 0])
    s.runtime.emitted = 2 ∧ s.flow = List.range s.runtime.emitted := by
  refine ⟨_, rfl, rfl, ?_⟩
  refine (Session.run_conserves relay_isLine rfl _).2.2.2 ?_ ?_
  · intro q hq
    obtain ⟨x, hx, rfl⟩ := List.mem_map.mp hq
    rcases List.mem_cons.mp hx with rfl | hx
    · rfl
    · obtain rfl := List.mem_singleton.mp hx
      rfl
  · decide

end Pipeline
end Oscilloscope
