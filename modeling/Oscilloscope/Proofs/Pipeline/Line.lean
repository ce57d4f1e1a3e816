import Oscilloscope.Pipeline.Runtime
import Oscilloscope.Proofs.Queue.History

/-!
# Oscilloscope.Proofs.Pipeline.Line

Stages in a line, and what one step of a worker does to the frames around it.

A line begins with a stage that makes frames numbered `0, 1, 2, ...` and goes on with stages that
forward every frame. What such a stage does to a frame is left open as long as the frame keeps its
number, and so is the result with which it answers.

* `EmitsFrom b n s`: stage `s` makes frame `n` next, and so on. `Forwards b s`: stage `s` forwards.
* `Phase.hand`: the frames that a worker holds between two queues.
* `Moved`: the law of one step. Read from the queue behind a worker over its hand to the queue
  before it, the frames keep their order; what the queue behind discards is the only loss.
* `Worker.step_emits` and `Worker.step_forwards`: every step of a worker in a line obeys the law.
-/

namespace Oscilloscope
namespace Pipeline

variable {σ : Type}

def numbers (frames : List Frame) : List Nat := frames.map fun f => f.sequence.toNat

@[simp] theorem numbers_nil : numbers [] = [] := rfl
@[simp] theorem numbers_append (fs gs : List Frame) :
    numbers (fs ++ gs) = numbers fs ++ numbers gs := List.map_append
@[simp] theorem numbers_cons (f : Frame) (fs : List Frame) :
    numbers (f :: fs) = f.sequence.toNat :: numbers fs := rfl

/-! ## Stages -/

/-- What it takes for `At n s` to mean that stage `s` makes frame `n` next: a call makes any number
of frames, numbered from `n` on, and the stage goes on from there. -/
structure Emitter (b : Behavior σ) (At : Nat → σ → Prop) : Prop where
  start : ∀ {n s result s'}, At n s → b.start s = .returned (result, s') → At n s'
  process : ∀ {n s call p}, At n s → b.process s call [] = .returned p →
    p.left = [] ∧ numbers p.made = List.range' n p.made.length ∧ At (n + p.made.length) p.stage

def EmitsFrom (b : Behavior σ) (n : Nat) (s : σ) : Prop := ∃ At, Emitter b At ∧ At n s

/-- What it takes for `P` to hold of stages that forward: a call hands on the frame of its batch
under its number, leaves none, and comes back. -/
structure Forwarder (b : Behavior σ) (P : σ → Prop) : Prop where
  start : ∀ {s result s'}, P s → b.start s = .returned (result, s') → P s'
  process : ∀ {s call batch p}, P s → batch.length ≤ 1 → b.process s call batch = .returned p →
    p.left = [] ∧ numbers p.made = numbers batch ∧ P p.stage
  returns : ∀ {s call batch}, P s → batch.length ≤ 1 → b.process s call batch ≠ .panicked

def Forwards (b : Behavior σ) (s : σ) : Prop := ∃ P, Forwarder b P ∧ P s

theorem emitter_emitsFrom (b : Behavior σ) : Emitter b (EmitsFrom b) where
  start := fun ⟨At, hAt, h⟩ hs => ⟨At, hAt, hAt.start h hs⟩
  process := fun ⟨At, hAt, h⟩ hp =>
    let ⟨hleft, hmade, hnext⟩ := hAt.process h hp
    ⟨hleft, hmade, At, hAt, hnext⟩

theorem forwarder_forwards (b : Behavior σ) : Forwarder b (Forwards b) where
  start := fun ⟨P, hP, h⟩ hs => ⟨P, hP, hP.start h hs⟩
  process := fun ⟨P, hP, h⟩ hb hp =>
    let ⟨hleft, hmade, hnext⟩ := hP.process h hb hp
    ⟨hleft, hmade, P, hP, hnext⟩
  returns := fun ⟨_, hP, h⟩ => hP.returns h

/-! ## Hands -/

/-- The frames that a worker holds, oldest first. -/
def Phase.hand : Phase → List Frame
  | .calling batch _ => batch
  | .offering left _ _ pending => pending ++ left
  | _ => []

@[simp] theorem Phase.hand_calling (batch : List Frame) (again : Bool) :
    (Phase.calling batch again).hand = batch := rfl
@[simp] theorem Phase.hand_offering (left : List Frame) (again : Bool) (result : StageResult)
    (pending : List Frame) : (Phase.offering left again result pending).hand = pending ++ left := rfl

/-- A worker between two calls holds at most `limit` frames to offer to its stage, and a stage has
left none of them. -/
def Phase.Holds (limit : Nat) : Phase → Prop
  | .calling batch _ => batch.length ≤ limit
  | .offering left _ _ _ => left = []
  | _ => True

/-- The worker has gone, or `P` holds of its stage and it holds at most `limit` frames. -/
def Worker.Keeps (P : σ → Prop) (limit : Nat) (w : Worker σ) : Prop :=
  w.phase.isGone = true ∨ (P w.stage ∧ w.phase.Holds limit)

def waiting (q : Option (Queue.Bounded Frame)) : List Frame := (q.map (·.items)).getD []

@[simp] theorem waiting_none : waiting none = [] := rfl
@[simp] theorem waiting_some (q : Queue.Bounded Frame) : waiting (some q) = q.items := rfl

/-- The frames around a worker, from the queue behind it to the queue before it. -/
def Worker.flow (w : Worker σ) (around : Surroundings) : List Frame :=
  around.output.items ++ w.phase.hand ++ waiting around.input

def Move.flow (m : Move σ) : List Frame :=
  m.output.items ++ m.worker.phase.hand ++ waiting m.input

/-- What the queue behind a worker discards in its next step. -/
def Worker.discards (w : Worker σ) (around : Surroundings) : List Frame :=
  match w.phase with
  | .offering _ _ _ (f :: _) => (around.output.offer f).discarded
  | _ => []

/-- The law of one step, in which frames with the numbers `new` are made. -/
structure Moved (w : Worker σ) (around : Surroundings) (m : Move σ) (new : List Nat) : Prop where
  order : List.Sublist (numbers m.flow) (numbers (w.flow around) ++ new)
  kept : List.Perm (numbers (m.flow ++ w.discards around)) (numbers (w.flow around) ++ new)
  output : ∃ items accepted, m.output = { around.output with
    items, accepted, dropped := around.output.dropped + (w.discards around).length }
  input : ∃ items, m.input = around.input.map fun q => { q with items }

/-! ## One step of a worker -/

section Step

variable {b : Behavior σ} {w : Worker σ} {around : Surroundings} {m : Move σ} {new : List Nat}

/-- A step that discards nothing and leaves the queue behind the worker as it is. -/
theorem Moved.of_numbers (hout : m.output = around.output)
    (hin : ∃ items, m.input = around.input.map fun q => { q with items })
    (hdisc : w.discards around = [])
    (hflow : numbers m.flow = numbers (w.flow around) ++ new) : Moved w around m new where
  order := hflow ▸ List.Sublist.refl _
  kept := by rw [hdisc, List.append_nil, hflow]
  output := ⟨around.output.items, around.output.accepted, by rw [hout, hdisc]; rfl⟩
  input := hin

theorem discards_of_hand (hhand : w.phase.hand = []) : w.discards around = [] := by
  unfold Worker.discards
  split
  · rename_i hphase
    rw [hphase] at hhand
    cases hhand
  · rfl

theorem exists_map_items (input : Option (Queue.Bounded Frame)) :
    ∃ items, input = input.map fun q => { q with items } := by
  cases input with
  | none => exact ⟨[], rfl⟩
  | some q => exact ⟨q.items, rfl⟩

theorem Moved.of_empty (hhand : w.phase.hand = []) (hout : m.output = around.output)
    (hin : m.input = around.input) (hhand' : m.worker.phase.hand = []) :
    Moved w around m [] := by
  refine .of_numbers hout ?_ (discards_of_hand hhand) ?_
  · rw [hin]
    exact exists_map_items around.input
  · simp [Move.flow, Worker.flow, hhand, hhand', hout, hin]

theorem fetch_moved (hhand : w.phase.hand = []) : Moved w around (w.fetch around) [] := by
  cases hin : around.input with
  | none =>
    simp only [Worker.fetch, hin]
    exact .of_empty hhand rfl rfl rfl
  | some q =>
    simp only [Worker.fetch, hin, Queue.Bounded.dequeue_eq]
    cases hitems : q.items with
    | nil => exact .of_empty hhand rfl rfl rfl
    | cons f rest =>
      refine .of_numbers rfl ⟨rest, by simp [hin]⟩ (discards_of_hand hhand) ?_
      simp [Move.flow, Worker.flow, Worker.still, hhand, hin, hitems]

theorem offer_moved {left : List Frame} {again : Bool} {result : StageResult} {f : Frame}
    {pending : List Frame} (hphase : w.phase = .offering left again result (f :: pending))
    (hopen : around.output.isShutdown = false) (hroom : 0 < around.output.capacity)
    (hm : w.offer around left again result f pending = some m) : Moved w around m [] := by
  have hhand : w.phase.hand = f :: (pending ++ left) := by rw [hphase]; rfl
  have hdisc : w.discards around = (around.output.offer f).discarded := by
    simp [Worker.discards, hphase]
  have hin := exists_map_items around.input
  rcases around.output.offer_cases f with ⟨_, hdown, _⟩ | ⟨_, ho⟩ | ⟨_, _, ho⟩ | ⟨hfull, _, ho⟩ |
    ⟨_, _, ho⟩
  · rw [hopen] at hdown; cases hdown
  · simp only [Worker.offer, ho, Option.some.injEq] at hm
    subst hm
    rw [ho] at hdisc
    refine ⟨?_, ?_, ⟨around.output.items ++ [f], around.output.accepted + 1, by rw [hdisc]; rfl⟩,
      hin⟩
    · simp [Move.flow, Worker.flow, Worker.still, hhand]
    · simp [Move.flow, Worker.flow, Worker.still, hhand, hdisc]
  · -- The offered frame is lost.
    simp only [Worker.offer, ho, Option.some.injEq] at hm
    subst hm
    rw [ho] at hdisc
    refine ⟨?_, ?_, ⟨around.output.items, around.output.accepted, by rw [hdisc]; rfl⟩, hin⟩
    · simp [Move.flow, Worker.flow, Worker.still, hhand]
    · rw [hdisc, List.append_nil]
      refine List.Perm.map _ ((List.perm_append_singleton _ _).trans ?_)
      simp only [Move.flow, Worker.flow, Worker.still, hhand, Phase.hand_offering,
        List.append_assoc, List.cons_append]
      exact List.perm_middle.symm
  · -- The oldest frame of the queue is lost.
    obtain ⟨oldest, rest, hitems⟩ : ∃ oldest rest, around.output.items = oldest :: rest := by
      cases hitems : around.output.items with
      | nil => simp only [Queue.Bounded.length_eq, hitems, List.length_nil] at hfull; omega
      | cons oldest rest => exact ⟨oldest, rest, rfl⟩
    simp only [Worker.offer, ho, Option.some.injEq] at hm
    subst hm
    rw [ho] at hdisc
    simp only [hitems, List.take_succ_cons, List.take_zero] at hdisc
    refine ⟨?_, ?_, ⟨rest ++ [f], around.output.accepted + 1, ?_⟩, hin⟩
    · simp [Move.flow, Worker.flow, Worker.still, hhand, Queue.Bounded.replaceOldest, hitems]
    · rw [hdisc, List.append_nil]
      refine List.Perm.map _ (List.perm_append_comm.trans ?_)
      simp [Move.flow, Worker.flow, Worker.still, hhand, Queue.Bounded.replaceOldest, hitems]
    · simp [Queue.Bounded.replaceOldest, Queue.Bounded.append, hdisc, hitems]
  · simp only [Worker.offer, ho] at hm
    cases hm

theorem afterCall_holds (stopRequested again : Bool) (result : StageResult) (limit : Nat) :
    (Worker.afterCall stopRequested [] again result).hand = [] ∧
      (Worker.afterCall stopRequested [] again result).Holds limit := by
  cases result <;> cases again <;> cases stopRequested <;>
    simp [Worker.afterCall, Phase.hand, Phase.Holds]

theorem step_gone (hgone : w.phase.isGone = true) : w.step b around = none := by
  cases hphase : w.phase with
  | gone reason => simp [Worker.step, hphase]
  | _ => rw [hphase] at hgone; cases hgone

theorem fetch_keeps {P : σ → Prop} {limit : Nat} (hlimit : limit = 0 → around.input = none)
    (hP : P w.stage) : (w.fetch around).worker.Keeps P limit ∧ (w.fetch around).made = 0 := by
  cases hin : around.input with
  | none =>
    simp only [Worker.fetch, hin]
    exact ⟨.inr ⟨hP, Nat.zero_le _⟩, rfl⟩
  | some q =>
    have hone : 1 ≤ limit := by
      rcases Nat.eq_zero_or_pos limit with h0 | hpos
      · rw [hlimit h0] at hin; cases hin
      · exact hpos
    simp only [Worker.fetch, hin, Queue.Bounded.dequeue_eq]
    cases q.items with
    | nil => exact ⟨.inr ⟨hP, trivial⟩, rfl⟩
    | cons f rest => exact ⟨.inr ⟨hP, hone⟩, rfl⟩

theorem offer_worker {left : List Frame} {again : Bool} {result : StageResult} {f : Frame}
    {pending : List Frame} (hm : w.offer around left again result f pending = some m) :
    m.made = 0 ∧ ∃ rest, rest.length ≤ pending.length ∧
      m.worker = { w with phase := .offering left again result rest } := by
  simp only [Worker.offer] at hm
  split at hm
  · cases hm
  · cases hm; exact ⟨rfl, [], Nat.zero_le _, rfl⟩
  · cases hm; exact ⟨rfl, pending, Nat.le_refl _, rfl⟩

theorem still_between {P : σ → Prop} {limit : Nat} {stage : σ} {phase : Phase}
    (hhand : w.phase.hand = []) (hP : P stage) (hhand' : phase.hand = [])
    (hholds : phase.Holds limit) (hm : m = { w with stage }.still around phase) :
    m.worker.Keeps P limit ∧ m.made = 0 ∧ Moved w around m [] := by
  subst hm
  exact ⟨.inr ⟨hP, hholds⟩, rfl, .of_empty hhand rfl rfl hhand'⟩

/-- A step between two calls makes nothing and moves frames by the law. -/
theorem step_between {P : σ → Prop} {limit : Nat}
    (hstart : ∀ {s result s'}, P s → b.start s = .returned (result, s') → P s')
    (hlimit : limit = 0 → around.input = none)
    (hopen : around.output.isShutdown = false) (hroom : 0 < around.output.capacity)
    (hcall : ∀ batch again, w.phase ≠ .calling batch again)
    (hw : w.Keeps P limit) (hm : w.step b around = some m) :
    m.worker.Keeps P limit ∧ m.made = 0 ∧ Moved w around m [] := by
  rcases hw with hgone | ⟨hP, hhold⟩
  · rw [step_gone hgone] at hm; cases hm
  -- Only a fetch takes a frame into the hand, and only an offer puts one out of it.
  cases hphase : w.phase with
  | calling batch again => exact absurd hphase (hcall batch again)
  | gone reason => rw [step_gone (by rw [hphase]; rfl)] at hm; cases hm
  | spawned =>
    have hhand : w.phase.hand = [] := by rw [hphase]; rfl
    simp only [Worker.step, hphase, Option.some.injEq] at hm
    refine still_between hhand hP ?_ ?_ hm.symm
    · rfl
    · trivial
  | starting =>
    have hhand : w.phase.hand = [] := by rw [hphase]; rfl
    simp only [Worker.step, hphase] at hm
    split at hm
    · cases hm
    · cases hm
      exact ⟨.inl rfl, rfl, .of_empty hhand rfl rfl rfl⟩
    · rename_i result stage hs
      have hP' : P stage := hstart hP hs
      rw [Option.some.injEq] at hm
      refine still_between hhand hP' ?_ ?_ hm.symm
      · split <;> rfl
      · split <;> trivial
  | checking =>
    have hhand : w.phase.hand = [] := by rw [hphase]; rfl
    simp only [Worker.step, hphase, Option.some.injEq] at hm
    refine still_between hhand hP ?_ ?_ hm.symm
    · split <;> rfl
    · split <;> trivial
  | fetching =>
    have hhand : w.phase.hand = [] := by rw [hphase]; rfl
    simp only [Worker.step, hphase, Option.some.injEq] at hm
    subst hm
    obtain ⟨hkeeps, hmade⟩ := fetch_keeps hlimit hP
    exact ⟨hkeeps, hmade, fetch_moved hhand⟩
  | starved =>
    have hhand : w.phase.hand = [] := by rw [hphase]; rfl
    simp only [Worker.step, hphase, Option.some.injEq] at hm
    refine still_between hhand hP ?_ ?_ hm.symm
    · split <;> rfl
    · split <;> trivial
  | offering left again result pending =>
    rw [hphase] at hhold
    obtain rfl : left = [] := hhold
    cases pending with
    | nil =>
      have hhand : w.phase.hand = [] := by rw [hphase]; rfl
      simp only [Worker.step, hphase, Option.some.injEq] at hm
      obtain ⟨hhand', hholds⟩ := afterCall_holds around.stopRequested again result limit
      exact still_between hhand hP hhand' hholds hm.symm
    | cons f pending =>
      simp only [Worker.step, hphase] at hm
      obtain ⟨hmade, rest, -, hworker⟩ := offer_worker hm
      refine ⟨.inr ?_, hmade, offer_moved hphase hopen hroom hm⟩
      rw [hworker]
      exact ⟨hP, rfl⟩
  | leaving reason =>
    have hhand : w.phase.hand = [] := by rw [hphase]; rfl
    simp only [Worker.step, hphase] at hm
    split at hm
    · cases hm
    · cases hm
      exact ⟨.inl rfl, rfl, .of_empty hhand rfl rfl rfl⟩
    · cases hm
      exact ⟨.inl rfl, rfl, .of_empty hhand rfl rfl rfl⟩

theorem call_cases {batch : List Frame} {again : Bool} (hphase : w.phase = .calling batch again)
    (hm : w.step b around = some m) :
    (b.process w.stage ⟨w.iteration, around.index, around.stopRequested⟩ batch = .panicked ∧
      m = w.still around (.gone .panicked)) ∨
    ∃ p, b.process w.stage ⟨w.iteration, around.index, around.stopRequested⟩ batch = .returned p ∧
      m.worker = ⟨p.stage, .offering p.left again p.result p.made, w.iteration + 1⟩ ∧
      m.made = p.made.length ∧ m.input = around.input ∧ m.output = around.output := by
  simp only [Worker.step, hphase, Worker.call] at hm
  split at hm
  · cases hm
  · rename_i hp
    cases hm
    exact .inl ⟨hp, rfl⟩
  · rename_i p hp
    cases hm
    exact .inr ⟨p, hp, rfl, rfl, rfl, rfl⟩

/-- A call after which the hand of the worker has the numbers it had before and some new ones. New
numbers are made only where no queue comes before the worker. -/
theorem call_moved {batch : List Frame} {again : Bool} (hphase : w.phase = .calling batch again)
    (hin : m.input = around.input) (hout : m.output = around.output)
    (hnew : new = [] ∨ around.input = none)
    (hhand : numbers m.worker.phase.hand = numbers batch ++ new) : Moved w around m new := by
  have hbatch : w.phase.hand = batch := by rw [hphase]; rfl
  refine .of_numbers hout ?_ (by simp [Worker.discards, hphase]) ?_
  · rw [hin]
    exact exists_map_items around.input
  · simp only [Move.flow, Worker.flow, numbers_append, hout, hin, hhand, hbatch,
      List.append_assoc, List.append_cancel_left_eq]
    rcases hnew with rfl | hnone
    · simp
    · simp [hnone]

/-- Every step of the worker of a stage that forwards obeys the law and makes no new numbers. -/
theorem Worker.step_forwards (hopen : around.output.isShutdown = false)
    (hroom : 0 < around.output.capacity) (hw : w.Keeps (Forwards b) 1)
    (hm : w.step b around = some m) :
    m.worker.Keeps (Forwards b) 1 ∧ Moved w around m [] := by
  by_cases hcall : ∃ batch again, w.phase = .calling batch again
  · obtain ⟨batch, again, hphase⟩ := hcall
    rcases hw with hgone | ⟨hP, hhold⟩
    · rw [step_gone hgone] at hm; cases hm
    have hbatch : batch.length ≤ 1 := by rw [hphase] at hhold; exact hhold
    rcases call_cases hphase hm with ⟨hpanic, -⟩ | ⟨p, hp, hworker, -, hin, hout⟩
    · exact absurd hpanic ((forwarder_forwards b).returns hP hbatch)
    · obtain ⟨hleft, hmade, hP'⟩ := (forwarder_forwards b).process hP hbatch hp
      refine ⟨.inr ?_, call_moved hphase hin hout (.inl rfl) ?_⟩
      · rw [hworker]; exact ⟨hP', hleft⟩
      · simp [hworker, hleft, hmade]
  · have hcall' : ∀ batch again, w.phase ≠ .calling batch again :=
      fun batch again h => hcall ⟨batch, again, h⟩
    obtain ⟨hkeeps, -, hmoved⟩ := step_between (forwarder_forwards b).start (by simp) hopen hroom
      hcall' hw hm
    exact ⟨hkeeps, hmoved⟩

/-- Every step of the worker of a stage that makes frame `n` next obeys the law, and the numbers it
makes go on from `n`. -/
theorem Worker.step_emits {n : Nat} (hnone : around.input = none)
    (hopen : around.output.isShutdown = false) (hroom : 0 < around.output.capacity)
    (hw : w.Keeps (EmitsFrom b n) 0) (hm : w.step b around = some m) :
    m.worker.Keeps (EmitsFrom b (n + m.made)) 0 ∧ Moved w around m (List.range' n m.made) := by
  by_cases hcall : ∃ batch again, w.phase = .calling batch again
  · obtain ⟨batch, again, hphase⟩ := hcall
    rcases hw with hgone | ⟨hP, hhold⟩
    · rw [step_gone hgone] at hm; cases hm
    obtain rfl : batch = [] := by
      rw [hphase] at hhold
      exact List.eq_nil_of_length_eq_zero (Nat.le_zero.mp hhold)
    rcases call_cases hphase hm with ⟨-, rfl⟩ | ⟨p, hp, hworker, hmade, hin, hout⟩
    · exact ⟨.inl rfl, .of_empty (by rw [hphase]; rfl) rfl rfl rfl⟩
    · obtain ⟨hleft, hnumbers, hP'⟩ := (emitter_emitsFrom b).process hP hp
      rw [hmade]
      refine ⟨.inr ?_, call_moved hphase hin hout (.inr hnone) ?_⟩
      · rw [hworker]; exact ⟨hP', hleft⟩
      · simp [hworker, hleft, hnumbers]
  · have hcall' : ∀ batch again, w.phase ≠ .calling batch again :=
      fun batch again h => hcall ⟨batch, again, h⟩
    obtain ⟨hkeeps, hmade, hmoved⟩ := step_between (emitter_emitsFrom b).start (fun _ => hnone)
      hopen hroom hcall' hw hm
    rw [hmade]
    exact ⟨hkeeps, hmoved⟩

theorem discards_block (hopen : around.output.isShutdown = false)
    (hp : around.output.policy = .block) : w.discards around = [] := by
  unfold Worker.discards
  split
  · rename_i f _ _
    rcases around.output.offer_cases f with ⟨_, hdown, _⟩ | ⟨_, ho⟩ | ⟨_, h, _⟩ | ⟨_, h, _⟩ |
      ⟨_, _, ho⟩
    · rw [hopen] at hdown; cases hdown
    · rw [ho]
    · rw [hp] at h; cases h
    · rw [hp] at h; cases h
    · rw [ho]
  · rfl

end Step

end Pipeline
end Oscilloscope
