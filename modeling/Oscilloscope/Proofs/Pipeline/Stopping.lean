import Mathlib.Data.Prod.Lex
import Oscilloscope.Proofs.Pipeline.Conservation

/-!
# Oscilloscope.Proofs.Pipeline.Stopping

A stop brings every worker to its end.

A pipeline runs under a schedule: at every moment one worker makes a step, the caller polls, a stop
is requested or a queue is shut down. The request and the shutdowns may come at any moments, with
steps of the workers in between.

* `Returns b s`: the calls of stage `s` come back, at the latest when a stop is requested.
* `Phase.rank`: what a worker may still do after the request, first the calls, then the steps up to
  the next one.
* `Worker.step_law`: every step lowers the rank. A second attempt is not begun any more.
* `Worker.exists_step`: behind a shut queue nothing keeps a worker from its next step.
* `Post`: a worker at its place, with its stops and exits counted.
* `Runtime.stop_bounded`: at most one more call, then one stop of the stage and one exit.
-/

namespace Oscilloscope
namespace Pipeline

variable {σ : Type}

/-! ## Stages whose calls return -/

/-- What it takes for `P` to hold of stages whose calls return. A call may wait for a stop request,
but not longer. -/
structure Returner (b : Behavior σ) (P : σ → Prop) : Prop where
  start : ∀ {s}, P s → ∃ result s', b.start s = .returned (result, s') ∧ P s'
  process : ∀ {s} call batch, P s →
    (∃ p, b.process s call batch = .returned p ∧ P p.stage) ∨
      (b.process s call batch = .waiting ∧ call.stopRequested = false)
  stop : ∀ {s}, P s → ∃ s', b.stop s = .returned s' ∧ P s'

def Returns (b : Behavior σ) (s : σ) : Prop := ∃ P, Returner b P ∧ P s

theorem returner_returns (b : Behavior σ) : Returner b (Returns b) where
  start := by
    rintro s ⟨P, hP, hs⟩
    obtain ⟨result, s', heq, hs'⟩ := hP.start hs
    exact ⟨result, s', heq, P, hP, hs'⟩
  process := by
    rintro s call batch ⟨P, hP, hs⟩
    rcases hP.process call batch hs with ⟨p, heq, hs'⟩ | hwait
    · exact .inl ⟨p, heq, P, hP, hs'⟩
    · exact .inr hwait
  stop := by
    rintro s ⟨P, hP, hs⟩
    obtain ⟨s', heq, hs'⟩ := hP.stop hs
    exact ⟨s', heq, P, hP, hs'⟩

/-! ## What is left to do -/

/-- The calls that a worker may still begin once a stop is requested. -/
def Phase.callsLeft : Phase → Nat
  | .fetching => 1
  | .calling _ _ => 1
  | _ => 0

/-- The steps that it may still make up to its next call or its end. -/
def Phase.stepsLeft : Phase → Nat
  | .spawned => 4
  | .starting => 3
  | .checking => 2
  | .fetching => 1
  | .starved => 3
  | .calling _ _ => 0
  | .offering _ _ _ pending => pending.length + 3
  | .leaving _ => 1
  | .gone _ => 0

def Phase.rank (p : Phase) : Nat ×ₗ Nat := toLex (p.callsLeft, p.stepsLeft)

theorem Phase.rank_lt_iff {p q : Phase} : p.rank < q.rank ↔
    p.callsLeft < q.callsLeft ∨ p.callsLeft = q.callsLeft ∧ p.stepsLeft < q.stepsLeft :=
  Prod.Lex.toLex_lt_toLex

theorem Phase.callsLeft_le_one (p : Phase) : p.callsLeft ≤ 1 := by
  cases p <;> simp [callsLeft]

theorem Phase.isGone_of_rank_le {p q : Phase} (hle : q.rank ≤ p.rank) (hgone : p.isGone = true) :
    q.isGone = true := by
  have hlt : ¬p.rank < q.rank := not_lt.mpr hle
  rw [rank_lt_iff] at hlt
  cases p with
  | gone reason => cases q <;> simp_all [callsLeft, stepsLeft, isGone]
  | _ => cases hgone

def Phase.exit (i : Nat) (name : String) : Phase → List Exit
  | .gone reason => [⟨i, name, reason⟩]
  | _ => []

theorem exitOf_eq (i : Nat) (name : String) (m : Move σ) :
    Runtime.exitOf i name m = m.worker.phase.exit i name := by
  unfold Runtime.exitOf
  cases m.worker.phase <;> rfl

theorem Phase.exit_of_not_gone {p : Phase} (i : Nat) (name : String) (h : p.isGone = false) :
    p.exit i name = [] := by
  cases p with
  | gone reason => cases h
  | _ => rfl

/-! ## One step of a worker -/

/-- What happens to a worker in a step once a stop is requested. -/
structure Worker.Closes (w w' : Worker σ) : Prop where
  calls : w'.iteration + w'.phase.callsLeft ≤ w.iteration + w.phase.callsLeft
  rank : w'.phase.rank < w.phase.rank
  again : ∀ batch, w'.phase ≠ .calling batch true

/-- The law of one step of a worker whose stage returns. -/
structure Worker.Steps (b : Behavior σ) (w : Worker σ) (around : Surroundings) (m : Move σ) :
    Prop where
  returns : Returns b m.worker.stage
  /-- The stage is stopped in the step in which the worker goes, and in no other. -/
  stops : m.stops = m.worker.phase.isGone
  closes : around.stopRequested = true → w.Closes m.worker

section Step

variable {b : Behavior σ} {w : Worker σ} {around : Surroundings} {m : Move σ}

/-- The usual step: no call is begun, and fewer steps are left. -/
theorem Worker.Closes.of_steps {w' : Worker σ} (hiteration : w'.iteration = w.iteration)
    (hcalls : w'.phase.callsLeft = w.phase.callsLeft)
    (hsteps : w'.phase.stepsLeft < w.phase.stepsLeft)
    (hagain : ∀ batch, w'.phase ≠ .calling batch true) : w.Closes w' where
  calls := by rw [hiteration, hcalls]
  rank := Phase.rank_lt_iff.mpr (.inr ⟨hcalls, hsteps⟩)
  again := hagain

theorem Worker.Steps.of_still {stage : σ} {phase : Phase} (hreturns : Returns b stage)
    (hgone : phase.isGone = false)
    (hcloses : around.stopRequested = true → w.Closes { w with stage, phase }) :
    w.Steps b around ({ w with stage }.still around phase) where
  returns := hreturns
  stops := hgone.symm
  closes := hcloses

theorem fetch_cases (w : Worker σ) (around : Surroundings) :
    (w.fetch around).stops = false ∧
      ((∃ batch, (w.fetch around).worker = { w with phase := .calling batch false }) ∨
        (w.fetch around).worker = { w with phase := .starved }) := by
  cases hin : around.input with
  | none =>
    simp only [Worker.fetch, hin]
    exact ⟨rfl, .inl ⟨[], rfl⟩⟩
  | some q =>
    simp only [Worker.fetch, hin, Queue.Bounded.dequeue_eq]
    cases q.items with
    | nil => exact ⟨rfl, .inr rfl⟩
    | cons f rest => exact ⟨rfl, .inl ⟨[f], rfl⟩⟩

/-- After a call, the worker does not make a second attempt once a stop is requested. -/
theorem afterCall_closes (left : List Frame) (again : Bool) (result : StageResult) :
    (Worker.afterCall true left again result).callsLeft = 0 ∧
      (Worker.afterCall true left again result).stepsLeft ≤ 2 ∧
      ∀ batch, Worker.afterCall true left again result ≠ .calling batch true := by
  cases result <;> cases again <;>
    simp [Worker.afterCall, Phase.callsLeft, Phase.stepsLeft]

theorem afterCall_not_gone {stopRequested again : Bool} {left : List Frame} {result : StageResult} :
    (Worker.afterCall stopRequested left again result).isGone = false := by
  cases result <;> cases again <;> cases stopRequested <;> rfl

theorem offer_stops {left : List Frame} {again : Bool} {result : StageResult} {f : Frame}
    {pending : List Frame} (hm : w.offer around left again result f pending = some m) :
    m.stops = false := by
  simp only [Worker.offer] at hm
  split at hm
  · cases hm
  · cases hm; rfl
  · cases hm; rfl

/-- One case per phase. Only from `fetching` and `calling` the calls that are left get fewer. -/
theorem Worker.step_law (hw : Returns b w.stage) (hm : w.step b around = some m) :
    w.Steps b around m := by
  cases hphase : w.phase with
  | spawned =>
    simp only [step, hphase, Option.some.injEq] at hm
    subst hm
    refine .of_still hw rfl fun _ => .of_steps rfl ?_ ?_ ?_
    · simp [hphase, Phase.callsLeft]
    · simp [hphase, Phase.stepsLeft]
    · simp
  | starting =>
    obtain ⟨result, stage, hstart, hstage⟩ := (returner_returns b).start hw
    simp only [step, hphase, hstart, Option.some.injEq] at hm
    subst hm
    refine .of_still hstage ?_ fun _ => .of_steps rfl ?_ ?_ ?_
    · split <;> rfl
    · split <;> simp [hphase, Phase.callsLeft]
    · split <;> simp [hphase, Phase.stepsLeft]
    · split <;> simp
  | checking =>
    simp only [step, hphase, Option.some.injEq] at hm
    subst hm
    refine .of_still hw ?_ fun hflag => .of_steps rfl ?_ ?_ ?_
    · split <;> rfl
    · simp [hflag, hphase, Phase.callsLeft]
    · simp [hflag, hphase, Phase.stepsLeft]
    · simp [hflag]
  | fetching =>
    simp only [step, hphase, Option.some.injEq] at hm
    subst hm
    obtain ⟨hstops, ⟨batch, hworker⟩ | hworker⟩ := fetch_cases w around
    · refine ⟨?_, ?_, fun _ => .of_steps ?_ ?_ ?_ ?_⟩
      · rw [hworker]; exact hw
      · rw [hworker, hstops]; rfl
      · rw [hworker]
      · simp [hworker, hphase, Phase.callsLeft]
      · simp [hworker, hphase, Phase.stepsLeft]
      · simp [hworker]
    · refine ⟨?_, ?_, fun _ => ⟨?_, ?_, ?_⟩⟩
      · rw [hworker]; exact hw
      · rw [hworker, hstops]; rfl
      · simp [hworker, hphase, Phase.callsLeft]
      · simp [hworker, hphase, Phase.rank_lt_iff, Phase.callsLeft]
      · simp [hworker]
  | starved =>
    simp only [step, hphase, Option.some.injEq] at hm
    subst hm
    refine .of_still hw ?_ fun _ => .of_steps rfl ?_ ?_ ?_
    · split <;> rfl
    · split <;> simp [hphase, Phase.callsLeft]
    · split <;> simp [hphase, Phase.stepsLeft]
    · split <;> simp
  | calling batch again =>
    simp only [step, hphase, call] at hm
    rcases (returner_returns b).process ⟨w.iteration, around.index, around.stopRequested⟩ batch hw
      with ⟨p, hp, hstage⟩ | ⟨hwait, -⟩
    · simp only [hp, Option.some.injEq] at hm
      subst hm
      refine ⟨hstage, rfl, fun _ => ⟨?_, ?_, ?_⟩⟩
      · simp [hphase, Phase.callsLeft]
      · simp [hphase, Phase.rank_lt_iff, Phase.callsLeft]
      · simp
    · simp [hwait] at hm
  | offering left again result pending =>
    cases pending with
    | nil =>
      simp only [step, hphase, Option.some.injEq] at hm
      subst hm
      refine .of_still hw afterCall_not_gone fun hflag => ?_
      obtain ⟨hcalls, hsteps, hagain⟩ := afterCall_closes left again result
      rw [hflag]
      refine .of_steps rfl ?_ ?_ hagain
      · rw [hcalls, hphase]; rfl
      · rw [hphase, Phase.stepsLeft, List.length_nil]
        exact Nat.lt_succ_of_le hsteps
    | cons f pending =>
      simp only [step, hphase] at hm
      obtain ⟨-, rest, hrest, hworker⟩ := offer_worker hm
      refine ⟨?_, ?_, fun _ => .of_steps ?_ ?_ ?_ ?_⟩
      · rw [hworker]; exact hw
      · rw [offer_stops hm, hworker]; rfl
      · rw [hworker]
      · rw [hworker, hphase]; rfl
      · rw [hworker, hphase, Phase.stepsLeft, Phase.stepsLeft, List.length_cons]
        omega
      · simp [hworker]
  | leaving reason =>
    obtain ⟨stage, hstop, hstage⟩ := (returner_returns b).stop hw
    simp only [step, hphase, hstop, Option.some.injEq] at hm
    subst hm
    refine ⟨hstage, rfl, fun _ => .of_steps rfl ?_ ?_ ?_⟩
    · simp [still, hphase, Phase.callsLeft]
    · simp [still, hphase, Phase.stepsLeft]
    · simp [still]
  | gone reason =>
    rw [step_gone (by rw [hphase]; rfl)] at hm
    cases hm

/-- A queue that is shut down lets its producer go on, whatever its policy. -/
theorem offer_not_wait (f : Frame) {q : Queue.Bounded Frame} (hdown : q.isShutdown = true) :
    (q.offer f).answer ≠ .wait := by
  rcases q.offer_cases f with ⟨-, -, ho⟩ | ⟨-, ho⟩ | ⟨-, -, ho⟩ | ⟨-, -, ho⟩ | ⟨hfull, hblock, -⟩
  · simp [ho]
  · simp [ho]
  · simp [ho]
  · simp [ho]
  · simp [Queue.Bounded.offer_refused f hblock hdown]

theorem Worker.exists_step (hw : Returns b w.stage) (hflag : around.stopRequested = true)
    (hdown : around.output.isShutdown = true) (hgone : w.phase.isGone = false) :
    ∃ m, w.step b around = some m := by
  rw [← Option.isSome_iff_exists]
  cases hphase : w.phase with
  | spawned | checking | fetching | starved => simp [step, hphase]
  | starting =>
    obtain ⟨result, stage, hstart, -⟩ := (returner_returns b).start hw
    simp [step, hphase, hstart]
  | calling batch again =>
    rcases (returner_returns b).process ⟨w.iteration, around.index, around.stopRequested⟩ batch hw
      with ⟨p, hp, -⟩ | ⟨-, hwait⟩
    · simp [step, hphase, call, hp]
    · rw [hflag] at hwait
      cases hwait
  | offering left again result pending =>
    cases pending with
    | nil => simp [step, hphase]
    | cons f pending =>
      have hgoes := offer_not_wait f hdown
      simp only [step, hphase, offer]
      split
      · contradiction
      · rfl
      · rfl
  | leaving reason =>
    obtain ⟨stage, hstop, -⟩ := (returner_returns b).stop hw
    simp [step, hphase, hstop]
  | gone reason =>
    rw [hphase] at hgone
    cases hgone

theorem offer_isShutdown (q : Queue.Bounded Frame) (f : Frame) :
    (q.offer f).queue.isShutdown = q.isShutdown := by
  rcases q.offer_cases f with ⟨-, -, ho⟩ | ⟨-, ho⟩ | ⟨-, -, ho⟩ | ⟨-, -, ho⟩ | ⟨-, -, ho⟩ <;>
    rw [ho]
  · rfl
  · rfl

theorem step_keeps_shutdown (hm : w.step b around = some m) :
    m.output.isShutdown = around.output.isShutdown ∧
      m.input.map (·.isShutdown) = around.input.map (·.isShutdown) := by
  cases hphase : w.phase with
  | spawned | checking | starved =>
    simp only [Worker.step, hphase, Option.some.injEq] at hm
    subst hm
    exact ⟨rfl, rfl⟩
  | starting | leaving =>
    simp only [Worker.step, hphase] at hm
    split at hm <;> cases hm <;> exact ⟨rfl, rfl⟩
  | fetching =>
    simp only [Worker.step, hphase, Option.some.injEq] at hm
    subst hm
    cases hin : around.input with
    | none => simp [Worker.fetch, hin, Worker.still]
    | some q =>
      simp only [Worker.fetch, hin, Queue.Bounded.dequeue_eq]
      cases q.items with
      | nil => simp [Worker.still, hin]
      | cons f rest => simp [Worker.still]
  | calling batch again =>
    simp only [Worker.step, hphase, Worker.call] at hm
    split at hm <;> cases hm <;> exact ⟨rfl, rfl⟩
  | offering left again result pending =>
    cases pending with
    | nil =>
      simp only [Worker.step, hphase, Option.some.injEq] at hm
      subst hm
      exact ⟨rfl, rfl⟩
    | cons f pending =>
      simp only [Worker.step, hphase, Worker.offer] at hm
      split at hm
      · cases hm
      · cases hm
        exact ⟨rfl, rfl⟩
      · cases hm
        exact ⟨offer_isShutdown around.output f, rfl⟩
  | gone reason =>
    rw [step_gone (by rw [hphase]; rfl)] at hm
    cases hm

end Step

/-! ## Schedules -/

inductive Happening where
  /-- Worker `i` makes a step, if it can. -/
  | work (i : Nat)
  | poll
  | pollLatest
  | requestStop
  | shutdownQueue (i : Nat)
deriving DecidableEq

namespace Runtime

def react (b : Behavior σ) (r : Runtime σ) : Happening → Runtime σ
  | .work i => (r.step b i).getD r
  | .poll => r.poll.2
  | .pollLatest => r.pollLatest.2
  | .requestStop => r.requestStop
  | .shutdownQueue i => r.shutdownQueue i

/-- The pipeline after the first `n` happenings of a schedule. -/
def after (b : Behavior σ) (r : Runtime σ) (schedule : Nat → Happening) : Nat → Runtime σ
  | 0 => r
  | n + 1 => (r.after b schedule n).react b (schedule n)

/-- The exits of the workers at place `i`, over all runs. -/
def exitsOf (r : Runtime σ) (i : Nat) : List Exit := r.exits.filter fun e => e.stageIndex = i

def IsShut (r : Runtime σ) : Prop := ∀ q ∈ r.queues, q.isShutdown = true

instance (r : Runtime σ) : Decidable r.IsShut :=
  inferInstanceAs (Decidable (∀ q ∈ r.queues, q.isShutdown = true))

end Runtime

/-- Worker `w` stands at place `i`. Since slot `s₀` was last at rest, with the exits `old` behind
it, its stage has been stopped and its exit has been reported once if it has gone, and not at all
before that. -/
structure Post (b : Behavior σ) (i : Nat) (s₀ : Slot σ) (old : List Exit) (r : Runtime σ)
    (w : Worker σ) : Prop where
  slot : ∃ s, r.slots[i]? = some s ∧ s.tenancy = .atWork w ∧ s.name = s₀.name ∧
    s.stopCalls = s₀.stopCalls + if w.phase.isGone then 1 else 0
  exits : r.exitsOf i = old ++ w.phase.exit i s₀.name
  queue : i < r.queues.length
  returns : Returns b w.stage

section Runs

variable {b : Behavior σ} {r₀ r r' : Runtime σ} {i : Nat} {s₀ : Slot σ} {old : List Exit}
  {w : Worker σ} {schedule : Nat → Happening}

/-! ### Polls -/

/-- `r'` is `r` after the caller has taken something out of the last queue, if anything. -/
def Taken (r r' : Runtime σ) : Prop :=
  r' = r ∨ ∃ q items, r.queues.getLast? = some q ∧ r' = r.withLast { q with items }

theorem taken_poll (r : Runtime σ) : Taken r r.poll.2 := by
  cases hq : r.queues.getLast? with
  | none => exact .inl (by simp [Runtime.poll, hq])
  | some q => exact .inr ⟨q, _, hq, by rw [Runtime.poll_of_last hq]⟩

theorem taken_pollLatest (r : Runtime σ) : Taken r r.pollLatest.2 := by
  cases hq : r.queues.getLast? with
  | none => exact .inl (by simp [Runtime.pollLatest, hq])
  | some q => exact .inr ⟨q, _, hq, by rw [Runtime.pollLatest_of_last hq]⟩

theorem Taken.same (h : Taken r r') : r'.slots = r.slots ∧ r'.exits = r.exits ∧
    r'.stopRequested = r.stopRequested ∧ r'.queues.length = r.queues.length := by
  rcases h with rfl | ⟨q, items, -, rfl⟩
  · exact ⟨rfl, rfl, rfl, rfl⟩
  · exact ⟨rfl, rfl, rfl, List.length_set⟩

theorem Taken.isShut (h : Taken r r') (hshut : r.IsShut) : r'.IsShut := by
  rcases h with rfl | ⟨q, items, hq, rfl⟩
  · exact hshut
  · intro x hx
    rcases List.mem_or_eq_of_mem_set hx with hx | rfl
    · exact hshut x hx
    · exact hshut q (List.mem_of_getLast? hq)

/-! ### What a stop sets is never undone -/

theorem stopRequested_react (h : r.stopRequested = true) (e : Happening) :
    (r.react b e).stopRequested = true := by
  cases e with
  | work j =>
    cases hstep : r.step b j with
    | none => simpa [Runtime.react, hstep] using h
    | some r' =>
      obtain ⟨s, w, around, m, -, -, -, -, rfl, -⟩ := Runtime.exists_of_step hstep
      simpa [Runtime.react, hstep, Runtime.apply] using h
  | poll => exact (taken_poll r).same.2.2.1.trans h
  | pollLatest => exact (taken_pollLatest r).same.2.2.1.trans h
  | requestStop => rfl
  | shutdownQueue j => exact h

theorem isShut_react (h : r.IsShut) (e : Happening) : (r.react b e).IsShut := by
  cases e with
  | work j =>
    cases hstep : r.step b j with
    | none => simpa [Runtime.react, hstep] using h
    | some r' =>
      obtain ⟨s, w, around, m, -, -, haround, hm, rfl, -⟩ := Runtime.exists_of_step hstep
      obtain ⟨hout, hin⟩ := step_keeps_shutdown hm
      simp only [Runtime.react, hstep, Option.getD_some]
      intro q hq
      rcases Runtime.mem_queues_apply hq with hq | rfl | hq
      · exact h q hq
      · rw [hout]
        exact h _ (List.mem_of_getElem? (Runtime.output_of_surroundings haround))
      · rw [hq, Option.map_some] at hin
        obtain ⟨q₀, hq₀, heq⟩ := Option.map_eq_some_iff.mp hin.symm
        rw [← heq]
        exact h q₀ (Runtime.mem_of_input haround hq₀)
  | poll => exact (taken_poll r).isShut h
  | pollLatest => exact (taken_pollLatest r).isShut h
  | requestStop => exact h
  | shutdownQueue j =>
    intro q hq
    obtain ⟨k, hk⟩ := List.getElem?_of_mem hq
    simp only [Runtime.react, Runtime.shutdownQueue, List.getElem?_modify, Option.map_eq_map,
      Option.map_eq_some_iff] at hk
    obtain ⟨q₀, hq₀, rfl⟩ := hk
    split
    · rfl
    · exact h q₀ (List.mem_of_getElem? hq₀)

theorem stopRequested_after {k n : Nat} (hkn : k ≤ n)
    (h : (r.after b schedule k).stopRequested = true) :
    (r.after b schedule n).stopRequested = true := by
  induction n, hkn using Nat.le_induction with
  | base => exact h
  | succ n _ ih => exact stopRequested_react ih (schedule n)

theorem isShut_after {k n : Nat} (hkn : k ≤ n) (h : (r.after b schedule k).IsShut) :
    (r.after b schedule n).IsShut := by
  induction n, hkn using Nat.le_induction with
  | base => exact h
  | succ n _ ih => exact isShut_react ih (schedule n)

/-! ### A worker at its place -/

theorem exists_surroundings (hi : i < r.queues.length) :
    ∃ around, r.surroundings? i = some around ∧ around.stopRequested = r.stopRequested := by
  simp [Runtime.surroundings?, List.getElem?_eq_getElem hi]

theorem stopRequested_of_surroundings {around : Surroundings}
    (h : r.surroundings? i = some around) : around.stopRequested = r.stopRequested := by
  simp only [Runtime.surroundings?, Option.bind_eq_bind, Option.bind_eq_some_iff,
    Option.some.injEq] at h
  obtain ⟨q, -, rfl⟩ := h
  rfl

theorem Post.exists_step (hw : Post b i s₀ old r w) (hflag : r.stopRequested = true)
    (hshut : r.IsShut) (hgone : w.phase.isGone = false) : ∃ r', r.step b i = some r' := by
  obtain ⟨s, hs, htenancy, -, -⟩ := hw.slot
  obtain ⟨around, haround, hrequested⟩ := exists_surroundings hw.queue
  have hdown : around.output.isShutdown = true :=
    hshut _ (List.mem_of_getElem? (Runtime.output_of_surroundings haround))
  obtain ⟨m, hm⟩ := Worker.exists_step hw.returns (hrequested.trans hflag) hdown hgone
  exact ⟨r.apply i s m, by simp [Runtime.step, hs, Slot.worker?, htenancy, haround, hm]⟩

/-- The worker after something has happened. It has made a step or is as it was. -/
def Follows (b : Behavior σ) (r : Runtime σ) (i : Nat) (w w' : Worker σ) (e : Happening) : Prop :=
  (w' = w ∧ (e = .work i → r.step b i = none)) ∨
    ∃ around m, r.surroundings? i = some around ∧ w.step b around = some m ∧ w' = m.worker

theorem Post.of_same {e : Happening} (hw : Post b i s₀ old r w) (he : e ≠ .work i)
    (hslot : ∀ s, r.slots[i]? = some s → ∃ s', r'.slots[i]? = some s' ∧
      s'.tenancy = s.tenancy ∧ s'.name = s.name ∧ s'.stopCalls = s.stopCalls)
    (hexits : r'.exitsOf i = r.exitsOf i) (hqueues : r'.queues.length = r.queues.length) :
    ∃ w', Post b i s₀ old r' w' ∧ Follows b r i w w' e := by
  obtain ⟨s, hs, htenancy, hname, hcalls⟩ := hw.slot
  obtain ⟨s', hs', htenancy', hname', hcalls'⟩ := hslot s hs
  refine ⟨w, ⟨⟨s', hs', ?_, ?_, ?_⟩, ?_, ?_, hw.returns⟩, .inl ⟨rfl, fun h => absurd h he⟩⟩
  · rw [htenancy', htenancy]
  · rw [hname', hname]
  · rw [hcalls', hcalls]
  · rw [hexits, hw.exits]
  · rw [hqueues]
    exact hw.queue

theorem Post.taken {e : Happening} (hw : Post b i s₀ old r w) (he : e ≠ .work i)
    (h : Taken r r') : ∃ w', Post b i s₀ old r' w' ∧ Follows b r i w w' e := by
  obtain ⟨hslots, hexits, -, hqueues⟩ := h.same
  refine hw.of_same he (fun s hs => ⟨s, ?_, rfl, rfl, rfl⟩) ?_ hqueues
  · rw [hslots, hs]
  · rw [Runtime.exitsOf, hexits, Runtime.exitsOf]

theorem exitsOf_apply {j : Nat} {s : Slot σ} {m : Move σ} :
    (r.apply j s m).exitsOf i =
      r.exitsOf i ++ if j = i then m.worker.phase.exit i s.name else [] := by
  have hnew : (r.apply j s m).exits = r.exits ++ m.worker.phase.exit j s.name := by
    rw [← exitOf_eq]
    rfl
  rw [Runtime.exitsOf, hnew, List.filter_append, Runtime.exitsOf]
  congr 1
  by_cases hj : j = i
  · subst hj
    cases m.worker.phase <;> simp [Phase.exit]
  · cases m.worker.phase <;> simp [Phase.exit, hj]

theorem Post.work (hw : Post b i s₀ old r w) (hstep : r.step b i = some r') :
    ∃ w', Post b i s₀ old r' w' ∧ Follows b r i w w' (.work i) := by
  obtain ⟨s, x, around, m, hs, hx, haround, hm, rfl, -⟩ := Runtime.exists_of_step hstep
  obtain ⟨s', hs', htenancy, hname, hcalls⟩ := hw.slot
  obtain rfl : s = s' := Option.some.inj (hs.symm.trans hs')
  obtain rfl : x = w := by simpa [hx] using htenancy
  obtain ⟨hreturns, hstops, -⟩ := Worker.step_law hw.returns hm
  have hgone : x.phase.isGone = false := by
    by_contra hgone
    rw [step_gone (by simpa using hgone)] at hm
    cases hm
  have hlt : i < r.slots.length := (List.getElem?_eq_some_iff.mp hs).1
  refine ⟨m.worker, ⟨⟨Runtime.slotAfter s m, ?_, rfl, hname, ?_⟩, ?_, ?_, hreturns⟩,
    .inr ⟨around, m, haround, hm, rfl⟩⟩
  · simp [hlt]
  · simp [Runtime.slotAfter, hcalls, hstops, hgone]
    split <;> rfl
  · rw [exitsOf_apply, hw.exits, Phase.exit_of_not_gone i s₀.name hgone, if_pos rfl, hname,
      List.append_nil]
  · rw [Runtime.length_queues_apply]
    exact hw.queue

theorem Post.react (hw : Post b i s₀ old r w) (e : Happening) :
    ∃ w', Post b i s₀ old (r.react b e) w' ∧ Follows b r i w w' e := by
  cases e with
  | work j =>
    cases hstep : r.step b j with
    | none =>
      simp only [Runtime.react, hstep, Option.getD_none]
      refine ⟨w, hw, .inl ⟨rfl, fun h => ?_⟩⟩
      cases h
      exact hstep
    | some r' =>
      simp only [Runtime.react, hstep, Option.getD_some]
      by_cases hj : j = i
      · subst hj
        exact hw.work hstep
      · obtain ⟨s, x, around, m, -, -, -, -, rfl, -⟩ := Runtime.exists_of_step hstep
        refine hw.of_same (by simpa using hj) (fun s' hs' => ⟨s', ?_, rfl, rfl, rfl⟩) ?_ ?_
        · simpa [List.getElem?_set, hj] using hs'
        · simp [exitsOf_apply, hj]
        · exact Runtime.length_queues_apply
  | poll => exact hw.taken (by simp) (taken_poll r)
  | pollLatest => exact hw.taken (by simp) (taken_pollLatest r)
  | requestStop =>
    refine hw.of_same (by simp) (fun s hs => ?_) rfl rfl
    refine ⟨if s.state = .running then { s with state := .stopping } else s, ?_, ?_, ?_, ?_⟩
    · simp [Runtime.react, Runtime.requestStop, hs]
    · split <;> rfl
    · split <;> rfl
    · split <;> rfl
  | shutdownQueue j =>
    refine hw.of_same (by simp) (fun s hs => ⟨s, hs, rfl, rfl, rfl⟩) rfl ?_
    simp [Runtime.react, Runtime.shutdownQueue]

/-! ### From the stop request on -/

/-- What happens to a worker over any time once a stop is requested. -/
structure Worker.Winds (w w' : Worker σ) : Prop where
  calls : w'.iteration + w'.phase.callsLeft ≤ w.iteration + w.phase.callsLeft
  rank : w'.phase.rank ≤ w.phase.rank
  again : ∀ batch, w'.phase = .calling batch true → w' = w

theorem Worker.Winds.refl (w : Worker σ) : w.Winds w := ⟨le_rfl, le_rfl, fun _ _ => rfl⟩

theorem Worker.Winds.closes {w' w'' : Worker σ} (h : w.Winds w') (hstep : w'.Closes w'') :
    w.Winds w'' where
  calls := hstep.calls.trans h.calls
  rank := hstep.rank.le.trans h.rank
  again := fun batch hphase => absurd hphase (hstep.again batch)

theorem Post.winds {k n : Nat} (hkn : k ≤ n) (hw : Post b i s₀ old (r.after b schedule k) w)
    (hflag : (r.after b schedule k).stopRequested = true) :
    ∃ w', Post b i s₀ old (r.after b schedule n) w' ∧ w.Winds w' := by
  induction n, hkn using Nat.le_induction with
  | base => exact ⟨w, hw, .refl w⟩
  | succ n hkn ih =>
    obtain ⟨w', hw', hwinds⟩ := ih
    obtain ⟨w'', hw'', hfollows⟩ := hw'.react (schedule n)
    refine ⟨w'', hw'', ?_⟩
    rcases hfollows with ⟨rfl, -⟩ | ⟨around, m, haround, hm, rfl⟩
    · exact hwinds
    · have hflag' : around.stopRequested = true :=
        (stopRequested_of_surroundings haround).trans (stopRequested_after hkn hflag)
      exact hwinds.closes ((Worker.step_law hw'.returns hm).closes hflag')

/-- A worker that gets its turn again and again goes in the end. -/
theorem Post.goes {k : Nat} (hfair : ∀ k, ∃ n, k ≤ n ∧ schedule n = .work i)
    (hw : Post b i s₀ old (r.after b schedule k) w)
    (hflag : (r.after b schedule k).stopRequested = true) (hshut : (r.after b schedule k).IsShut) :
    ∃ n w', k ≤ n ∧ Post b i s₀ old (r.after b schedule n) w' ∧ w'.phase.isGone = true := by
  -- On the rank: the next turn lowers it, and nothing that happens before raises it.
  induction hrank : w.phase.rank using WellFoundedLT.induction generalizing k w with
  | ind rank ih =>
    obtain ⟨n, hkn, hturn⟩ := hfair k
    obtain ⟨w', hw', hwinds⟩ := hw.winds hkn hflag
    have hflag' := stopRequested_after hkn hflag
    have hshut' := isShut_after hkn hshut
    by_cases hgone : w'.phase.isGone = true
    · exact ⟨n, w', hkn, hw', hgone⟩
    · obtain ⟨r', hr'⟩ := hw'.exists_step hflag' hshut' (by simpa using hgone)
      obtain ⟨w'', hw'', hfollows⟩ := hw'.react (schedule n)
      rcases hfollows with ⟨-, hstuck⟩ | ⟨around, m, haround, hm, rfl⟩
      · rw [hstuck hturn] at hr'
        cases hr'
      · have hcloses := (Worker.step_law hw'.returns hm).closes
          ((stopRequested_of_surroundings haround).trans hflag')
        have hlt : m.worker.phase.rank < rank := hrank ▸ hcloses.rank.trans_le hwinds.rank
        have hnext : Post b i s₀ old (r.after b schedule (n + 1)) m.worker := hw''
        obtain ⟨n', w₃, hn', hw₃, hgone₃⟩ := ih _ hlt hnext
          (stopRequested_after (Nat.le_succ n) hflag') (isShut_after (Nat.le_succ n) hshut') rfl
        exact ⟨n', w₃, by omega, hw₃, hgone₃⟩

/-! ### From the start on -/

theorem Post.of_start (hhouses : ∀ s ∈ r₀.slots, s.Houses (Returns b))
    (hstart : r₀.start = .ok r) (hs₀ : r₀.slots[i]? = some s₀) :
    ∃ w, Post b i s₀ (r₀.exitsOf i) r w := by
  obtain ⟨hslots, hqueues, hexits⟩ := Runtime.eq_of_start hstart
  obtain ⟨stage, hhome, hreturns⟩ := hhouses s₀ (List.mem_of_getElem? hs₀)
  refine ⟨{ stage }, ⟨⟨s₀.launch, ?_, ?_, ?_, ?_⟩, ?_, ?_, hreturns⟩⟩
  · simp [hslots, hs₀]
  · simp [Slot.launch, hhome]
  · simp [Slot.launch, hhome]
  · simp [Slot.launch, hhome, Phase.isGone]
  · simp [Runtime.exitsOf, hexits, Phase.exit]
  · rw [hqueues, List.length_map]
    exact (List.getElem?_eq_some_iff.mp hs₀).1

theorem Post.after (hw : Post b i s₀ old r w) (schedule : Nat → Happening) (n : Nat) :
    ∃ w', Post b i s₀ old (r.after b schedule n) w' := by
  induction n with
  | zero => exact ⟨w, hw⟩
  | succ n ih =>
    obtain ⟨w', hw'⟩ := ih
    obtain ⟨w'', hw'', -⟩ := hw'.react (schedule n)
    exact ⟨w'', hw''⟩

/-- **A stop is bounded.** Let a pipeline of stages whose calls return run under any schedule, with
any queues, and let every queue be shut down at some moment after a stop was requested. From then
on, for every worker:

* it can make its next step until it has gone, so it waits in no queue;
* since the request it has begun at most one call;
* it is about to make a second attempt only if it was so at the request and has not moved since;
* its stage is stopped and its exit is reported exactly once, when it goes.

If it gets its turn again and again, then it goes. -/
theorem Runtime.stop_bounded (hreturns : ∀ s ∈ r₀.slots, s.Houses (Returns b))
    (hstart : r₀.start = .ok r) (schedule : Nat → Happening) {requested shut : Nat}
    (hrequested : (r.after b schedule requested).stopRequested = true) (hle : requested ≤ shut)
    (hshut : (r.after b schedule shut).IsShut) (hs₀ : r₀.slots[i]? = some s₀) :
    (∀ n, shut ≤ n → ∃ w w', Post b i s₀ (r₀.exitsOf i) (r.after b schedule requested) w ∧
      Post b i s₀ (r₀.exitsOf i) (r.after b schedule n) w' ∧
      (w'.phase.isGone = true ∨ ∃ r', (r.after b schedule n).step b i = some r') ∧
      w'.iteration ≤ w.iteration + 1 ∧
      (∀ batch, w'.phase = .calling batch true → w' = w)) ∧
    ((∀ k, ∃ n, k ≤ n ∧ schedule n = .work i) →
      ∃ gone, ∀ n, gone ≤ n → ∃ s reason, (r.after b schedule n).slots[i]? = some s ∧
        s.stopCalls = s₀.stopCalls + 1 ∧
        (r.after b schedule n).exitsOf i = r₀.exitsOf i ++ [⟨i, s₀.name, reason⟩]) := by
  obtain ⟨w₀, hw₀⟩ := Post.of_start hreturns hstart hs₀
  obtain ⟨w, hw⟩ := hw₀.after schedule requested
  have hflag := stopRequested_after hle hrequested
  constructor
  · intro n hn
    obtain ⟨w', hw', hwinds⟩ := hw.winds (hle.trans hn) hrequested
    refine ⟨w, w', hw, hw', ?_, ?_, hwinds.again⟩
    · by_cases hgone : w'.phase.isGone = true
      · exact .inl hgone
      · exact .inr (hw'.exists_step (stopRequested_after hn hflag) (isShut_after hn hshut)
          (by simpa using hgone))
    · have hleft : w.phase.callsLeft ≤ 1 := w.phase.callsLeft_le_one
      have hcalls := hwinds.calls
      omega
  · intro hfair
    obtain ⟨w', hw', -⟩ := hw.winds hle hrequested
    obtain ⟨gone, w'', hle', hw'', hgone⟩ := hw'.goes hfair hflag hshut
    refine ⟨gone, fun n hn => ?_⟩
    obtain ⟨w₃, hw₃, hwinds⟩ := hw''.winds hn (stopRequested_after hle' hflag)
    have hgone₃ : w₃.phase.isGone = true := Phase.isGone_of_rank_le hwinds.rank hgone
    obtain ⟨s, hs, -, -, hcalls⟩ := hw₃.slot
    have hexits := hw₃.exits
    cases hphase : w₃.phase with
    | gone reason =>
      rw [hgone₃, if_pos rfl] at hcalls
      rw [hphase] at hexits
      exact ⟨s, reason, hs, hcalls, hexits⟩
    | _ => simp [hphase, Phase.isGone] at hgone₃

end Runs

/-! ## Stages that return -/

/-- The script neither breaks off nor waits when it starts. -/
def ScriptReturns (s : Scripted) : Prop :=
  (∃ result, s.onStart = .answer result) ∧ (∀ turn ∈ s.turns, turn.1 ≠ .panic) ∧
    s.afterwards ≠ .act .panic ∧ s.panicsOnStop = false

/-- No bytes are read, so that no header can make a read abort. -/
def Unstreamed : Source → Prop
  | .stream _ => False
  | _ => True

/-- The stages of this library return, a scripted one as long as its script does, and the others as
long as their numbers fit their words. -/
def StageReturns : Stage → Prop
  | .intake s => Unstreamed s.source
  | .check c => (∃ period, c.Checks period c.raw c.buckets) ∧
      Envelope.Verifier.InRange c.buckets c.raw
  | .sink s => s.drops?.isSome
  | .scripted s => ScriptReturns s
  | _ => True

theorem read_unstreamed {source : Source} (h : Unstreamed source) :
    source.read.1 ≠ .overflow ∧ Unstreamed source.read.2 := by
  have hexcept {α : Type} (e : Except ReadError α) : Outcome.ofExcept e ≠ .overflow := by
    cases e <;> simp [Outcome.ofExcept]
  cases source with
  | manual s => exact ⟨hexcept _, trivial⟩
  | ring l => exact ⟨hexcept _, trivial⟩
  | stream s => exact absurd h id

theorem intake_returns {s : Intake} (h : Unstreamed s.source) (batch : List Frame) :
    ∃ p, s.process batch = .returned p ∧ Unstreamed p.stage.source := by
  obtain ⟨hread, hkept⟩ := read_unstreamed h
  unfold Intake.process
  generalize s.source.read = r at hread hkept ⊢
  obtain ⟨outcome, source⟩ := r
  cases outcome with
  | overflow => exact absurd rfl hread
  | error e => cases e <;> exact ⟨_, rfl, hkept⟩
  | ok b =>
    dsimp only
    split
    · exact ⟨_, rfl, hkept⟩
    · exact ⟨_, rfl, hkept⟩

theorem check_returns {c : EnvelopeCheck} (h : StageReturns (.check c)) (batch : List Frame) :
    ∃ p, c.process batch = .returned p ∧ StageReturns (.check p.stage) := by
  obtain ⟨⟨period, hchecks⟩, hrange⟩ := h
  cases batch with
  | nil => exact ⟨_, rfl, ⟨period, hchecks⟩, hrange⟩
  | cons f left =>
    obtain ⟨c', hcheck, hkept⟩ := hchecks.check hrange f
    refine ⟨_, EnvelopeCheck.process_of_check hcheck _, ⟨period, ?_⟩, ?_⟩
    · exact ⟨hkept.sound, hkept.period, rfl, rfl⟩
    · exact hkept.buckets.symm ▸ hkept.raw.symm ▸ hrange

theorem writeFrames_counters (drops : UInt64) (s : WireSink) (batch : List Frame) :
    (s.writeFrames drops batch).2.2.counters = s.counters := by
  fun_induction WireSink.writeFrames drops s batch with
  | case1 => rfl
  | case2 => rfl
  | case3 s f rest writer heq ih => exact ih

theorem sink_returns {s : WireSink} (h : s.drops?.isSome) (batch : List Frame) :
    ∃ p, s.process batch = .returned p ∧ p.stage.drops?.isSome := by
  unfold WireSink.process
  split
  · exact ⟨_, rfl, h⟩
  · obtain ⟨drops, hdrops⟩ := Option.isSome_iff_exists.mp h
    have hkept : (s.writeBatch drops batch).stage.counters = s.counters := by
      have hcounters := writeFrames_counters drops s batch
      unfold WireSink.writeBatch
      generalize WireSink.writeFrames drops s batch = r at hcounters
      obtain ⟨ok, left, s'⟩ := r
      cases ok <;> exact hcounters
    rw [hdrops]
    refine ⟨_, rfl, ?_⟩
    rwa [WireSink.drops?, hkept]

theorem take_returns {s : Scripted} (hs : ScriptReturns s) {turn : Turn} (hturn : turn ≠ .panic)
    (call : Call) (batch : List Frame) (n : Nat) :
    (∃ p, s.take call batch turn n = .returned p ∧ ScriptReturns p.stage) ∨
      (s.take call batch turn n = .waiting ∧ call.stopRequested = false) := by
  have hanswer : ∀ result, ScriptReturns (s.answer call batch result n).stage := by
    intro result
    unfold Scripted.answer Scripted.make
    split
    · exact hs
    · cases batch.head? <;> exact hs
  cases turn with
  | answer result => exact .inl ⟨_, rfl, hanswer result⟩
  | spin =>
    cases hflag : call.stopRequested with
    | false => exact .inr ⟨by simp [Scripted.take, hflag], rfl⟩
    | true => exact .inl ⟨_, by simp [Scripted.take, hflag], hanswer .ok⟩
  | panic => exact absurd rfl hturn

theorem scripted_returns {s : Scripted} (hs : ScriptReturns s) (call : Call)
    (batch : List Frame) :
    (∃ p, s.process call batch = .returned p ∧ ScriptReturns p.stage) ∨
      (s.process call batch = .waiting ∧ call.stopRequested = false) := by
  obtain ⟨hstart, hturns, hafter, hstop⟩ := hs
  unfold Scripted.process
  split
  · rename_i turn n turns heq
    rw [heq] at hturns
    have hs' : ScriptReturns { s with turns } :=
      ⟨hstart, fun t ht => hturns t (List.mem_cons_of_mem _ ht), hafter, hstop⟩
    exact take_returns hs' (hturns (turn, n) List.mem_cons_self) call batch n
  · split
    · rename_i turn heq
      have hturn : turn ≠ .panic := fun h => hafter (h ▸ heq)
      exact take_returns ⟨hstart, hturns, hafter, hstop⟩ hturn call batch 0
    · split
      · exact .inl ⟨_, rfl, hstart, hturns, hafter, hstop⟩
      · exact .inl ⟨_, rfl, hstart, hturns, hafter, hstop⟩

theorem returner_stage : Returner Stage.behavior StageReturns where
  start := by
    intro s hs
    cases s with
    | scripted s =>
      obtain ⟨result, hresult⟩ := hs.1
      refine ⟨result, .scripted s, ?_, hs⟩
      simp [Stage.behavior, Stage.start, Scripted.start, hresult, Attempt.map]
    | intake s =>
      refine ⟨_, _, rfl, ?_⟩
      obtain ⟨source, numbering⟩ := s
      cases source with
      | stream s => exact hs
      | manual s => trivial
      | ring l => trivial
    | check c => exact ⟨_, _, rfl, hs⟩
    | sink s => exact ⟨_, _, rfl, hs⟩
    | decimator d => exact ⟨_, _, rfl, trivial⟩
    | display d => exact ⟨_, _, rfl, trivial⟩
  process := by
    intro s call batch hs
    cases s with
    | scripted s =>
      rcases scripted_returns hs call batch with ⟨p, hp, hs'⟩ | ⟨hwait, hflag⟩
      · refine .inl ⟨p.map .scripted, ?_, hs'⟩
        simp [Stage.behavior, Stage.process, hp, Attempt.map]
      · refine .inr ⟨?_, hflag⟩
        simp [Stage.behavior, Stage.process, hwait, Attempt.map]
    | intake s =>
      obtain ⟨p, hp, hs'⟩ := intake_returns hs batch
      exact .inl ⟨p.map .intake, congrArg (Attempt.map (Processed.map Stage.intake)) hp, hs'⟩
    | check c =>
      obtain ⟨p, hp, hs'⟩ := check_returns hs batch
      exact .inl ⟨p.map .check, congrArg (Attempt.map (Processed.map Stage.check)) hp, hs'⟩
    | sink s =>
      obtain ⟨p, hp, hs'⟩ := sink_returns hs batch
      exact .inl ⟨p.map .sink, congrArg (Attempt.map (Processed.map Stage.sink)) hp, hs'⟩
    | decimator d => exact .inl ⟨_, rfl, trivial⟩
    | display d => exact .inl ⟨_, rfl, trivial⟩
  stop := by
    intro s hs
    cases s with
    | scripted s =>
      refine ⟨.scripted s, ?_, hs⟩
      simp [Stage.behavior, Stage.stop, Scripted.stop, hs.2.2.2, Attempt.map]
    | intake s =>
      refine ⟨_, rfl, ?_⟩
      obtain ⟨source, numbering⟩ := s
      cases source with
      | stream s => exact hs
      | manual s => trivial
      | ring l => trivial
    | check c => exact ⟨_, rfl, hs⟩
    | sink s => exact ⟨_, rfl, hs⟩
    | decimator d => exact ⟨_, rfl, trivial⟩
    | display d => exact ⟨_, rfl, trivial⟩

/-- A source that makes two frames at once, asks for a retry and then waits, before a stage that
forwards. Each queue has room for one frame and makes its producer wait. -/
def congested : Runtime Stage where
  slots :=
    [.new Stage.behavior
      (.scripted { name := "source", turns := [(.answer .retry, 2)], afterwards := .act .spin })
      ⟨1, .block⟩,
     .new Stage.behavior (.scripted { name := "relay" }) ⟨1, .block⟩]

/-- The source runs until it waits for room; then comes the stop, and both workers take turns. -/
def closing (n : Nat) : Happening :=
  if n < 6 then .work 0
  else if n = 6 then .requestStop
  else if n < 9 then .shutdownQueue (n - 7)
  else .work (n % 2)

theorem stop_bounded_congested : ∃ r, congested.start = .ok r ∧
    (r.after Stage.behavior closing 6).step Stage.behavior 0 = none ∧
    (r.after Stage.behavior closing 7).stopRequested = true ∧
    (r.after Stage.behavior closing 9).IsShut ∧
    ∃ gone, ∀ n, gone ≤ n → ∃ s reason,
      (r.after Stage.behavior closing n).slots[0]? = some s ∧ s.stopCalls = 0 + 1 ∧
      (r.after Stage.behavior closing n).exitsOf 0 =
        congested.exitsOf 0 ++ [⟨0, "source", reason⟩] := by
  have hreturns : ∀ s ∈ congested.slots, s.Houses (Returns Stage.behavior) := by
    intro s hs
    rcases List.mem_pair.mp hs with rfl | rfl
    · refine ⟨_, rfl, StageReturns, returner_stage, ⟨.ok, rfl⟩, ?_, ?_, rfl⟩ <;> decide
    · refine ⟨_, rfl, StageReturns, returner_stage, ⟨.ok, rfl⟩, ?_, ?_, rfl⟩ <;> decide
  have hfair : ∀ k, ∃ n, k ≤ n ∧ closing n = .work 0 := by
    intro k
    refine ⟨2 * k + 10, by omega, ?_⟩
    have hturn : (2 * k + 10) % 2 = 0 := by omega
    simp [closing, hturn]
  refine ⟨_, rfl, rfl, rfl, by decide, ?_⟩
  exact (Runtime.stop_bounded hreturns rfl closing
    (by decide : (Runtime.after Stage.behavior _ closing 7).stopRequested = true) (by decide)
    (by decide : (Runtime.after Stage.behavior _ closing 9).IsShut) rfl).2 hfair

end Pipeline
end Oscilloscope
