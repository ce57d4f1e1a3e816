import Oscilloscope.Proofs.Pipeline.Visits
import Oscilloscope.Stage.Any

/-!
# Oscilloscope.Proofs.Pipeline.Retries

How often a worker offers a batch to its stage, and when it gives up.

A worker runs among queues that others fill and empty at any time, and nobody requests a stop.
Nothing is assumed of its stage: a call may answer with anything, make any frames, leave any part
of its batch, wait, or break off.

* `Diary`: a worker with a record of what it did, batch by batch (`Round`), call by call (`Reply`),
  and frame by frame (`Dispatch`).
* `Round.Closes`: a batch was offered once, or once more after a retry, and what its last answer
  means for the worker.
* `Stands`: what the record shows at each place of the loop. `Kept`: the books of the calls.
* `Diary.step_sound`: one step keeps both.
* `Diary.run_retries_once`: what any run shows, said without the loop.
-/

namespace Oscilloscope
namespace Pipeline

variable {σ : Type}

/-- No stop is requested, and none is shown by a queue. -/
structure Surroundings.Calm (place : Nat) (around : Surroundings) : Prop where
  index : around.index = place
  stop : around.stopRequested = false
  input : ∀ q ∈ around.input, q.isShutdown = false
  output : around.output.isShutdown = false

namespace Phase

/-- The frames of the last call that are still to be put into the queue behind the stage. -/
def pending : Phase → List Frame
  | offering _ _ _ pending => pending
  | _ => []

def isOffering : Phase → Bool
  | offering _ _ _ _ => true
  | _ => false

def leaving? : Phase → Option ExitReason
  | leaving reason => some reason
  | _ => none

end Phase

/-! ## What a worker did -/

/-- A call that came back. -/
structure Reply (σ : Type) where
  /-- The stage before the call. -/
  stage : σ
  call : Call
  batch : List Frame
  answer : Processed σ
  /-- What had been put into the queue behind the stage before the call. -/
  sent : List Frame

/-- A batch with its calls, and the queue before the stage before and after it was taken. -/
structure Round (σ : Type) where
  batch : List Frame
  calls : List (Reply σ)
  before : Option (Queue.Bounded Frame)
  after : Option (Queue.Bounded Frame)

/-- A frame put into the queue behind the stage, and that queue before and after. -/
structure Dispatch where
  frame : Frame
  before : Queue.Bounded Frame
  after : Queue.Bounded Frame

namespace Round

/-- The batch is the frame at the front of the queue, which is gone from there. A stage with no
queue before it gets an empty batch. -/
def Taken (r : Round σ) : Prop :=
  match r.before with
  | none => r.batch = [] ∧ r.after = none
  | some q =>
    ∃ f rest, q.items = f :: rest ∧ r.batch = [f] ∧ r.after = some { q with items := rest }

/-- The batch is about to be offered: as it was taken, or after a retry what the first call left
of it. -/
inductive Due (r : Round σ) : List Frame → Bool → Prop where
  | first (calls : r.calls = []) : Due r r.batch false
  | second {c : Reply σ} (calls : r.calls = [c]) (whole : c.batch = r.batch)
      (retried : c.answer.result = .retry) : Due r c.answer.left true

/-- The last call of the batch, and whether it was the second. -/
inductive Answered (r : Round σ) : Reply σ → Bool → Prop where
  | first {c : Reply σ} (calls : r.calls = [c]) (whole : c.batch = r.batch) : Answered r c false
  | second {c c' : Reply σ} (calls : r.calls = [c, c']) (whole : c.batch = r.batch)
      (retried : c.answer.result = .retry) (rest : c'.batch = c.answer.left) : Answered r c' true

end Round

/-- Why a worker leaves its loop after the last answer to a batch, if it does. -/
def verdict : StageResult → Option ExitReason
  | .ok | .noData => none
  | .endOfStream => some .endOfStream
  | .error | .retry => some .error

namespace Round

/-- The batch is through: it was offered in one call, or in two of which the first asked for a
retry and the second got what the first had left. -/
inductive Closes (r : Round σ) : Option ExitReason → Prop where
  | once {c : Reply σ} (calls : r.calls = [c]) (whole : c.batch = r.batch)
      (enough : c.answer.result ≠ .retry) : Closes r (verdict c.answer.result)
  | twice {c c' : Reply σ} (calls : r.calls = [c, c']) (whole : c.batch = r.batch)
      (retried : c.answer.result = .retry) (rest : c'.batch = c.answer.left) :
      Closes r (verdict c'.answer.result)

/-- A call of the batch gives reason to leave the loop, or both of its calls do. -/
def Gives (r : Round σ) : ExitReason → Prop
  | .endOfStream => ∃ c ∈ r.calls, c.answer.result = .endOfStream
  | .error => (∃ c ∈ r.calls, c.answer.result = .error) ∨
    ∃ c c', r.calls = [c, c'] ∧ c.answer.result = .retry ∧ c'.answer.result = .retry
  | _ => False

def add (r : Round σ) (c : Reply σ) : Round σ := { r with calls := r.calls ++ [c] }

end Round

/-- The queue took the frame or dropped one, by its policy. -/
def Dispatch.Offered (s : Dispatch) : Prop :=
  s.after = (s.before.offer s.frame).queue ∧
    ((s.before.offer s.frame).answer = .accepted ∨ (s.before.offer s.frame).answer = .full)

/-- A worker and what it did. -/
structure Diary (σ : Type) where
  worker : Worker σ
  /-- What the stage answered when it was started. -/
  started : Option StageResult := none
  /-- The batches before the last one, oldest first. -/
  past : List (Round σ) := []
  /-- The last batch. -/
  now : Option (Round σ) := none
  /-- What was put into the queue behind the stage, oldest first. -/
  sent : List Dispatch := []
  /-- Why the worker left its loop. -/
  reason : Option ExitReason := none

namespace Diary

def rounds (d : Diary σ) : List (Round σ) := d.past ++ d.now.toList

/-- All calls that came back, oldest first. -/
def replies (d : Diary σ) : List (Reply σ) := d.rounds.flatMap (·.calls)

/-- Note a step of the worker. -/
def note (b : Behavior σ) (d : Diary σ) (around : Surroundings) (m : Move σ) : Diary σ :=
  let d' := { d with worker := m.worker, reason := m.worker.phase.leaving?.or d.reason }
  match d.worker.phase, m.worker.phase with
  | .starting, _ =>
    match b.start d.worker.stage with
    | .returned p => { d' with started := some p.1 }
    | _ => d'
  | .fetching, .calling batch _ =>
    { d' with past := d.rounds, now := some ⟨batch, [], around.input, m.input⟩ }
  | .calling batch _, .offering left _ result made =>
    { d' with now := d.now.map (·.add
        { stage := d.worker.stage
          call := ⟨d.worker.iteration, around.index, around.stopRequested⟩
          batch
          answer := ⟨m.worker.stage, result, left, made⟩
          sent := d.sent.map (·.frame) }) }
  | .offering _ _ _ (f :: _), _ => { d' with sent := d.sent ++ [⟨f, around.output, m.output⟩] }
  | _, _ => d'

/-- A step of the worker, if it can make one. -/
def step (b : Behavior σ) (d : Diary σ) (around : Surroundings) : Diary σ :=
  match d.worker.step b around with
  | none => d
  | some m => d.note b around m

/-- The worker in one surroundings after the other. -/
def run (b : Behavior σ) (d : Diary σ) (meetings : List Surroundings) : Diary σ :=
  meetings.foldl (step b) d

/-- A worker that has done nothing yet. -/
def start (stage : σ) : Diary σ := { worker := { stage } }

end Diary

/-! ## The loop -/

/-- The worker is out of its loop for `reason`. It may have broken off after that. -/
def Phase.Out (reason : ExitReason) (p : Phase) : Prop :=
  p = .leaving reason ∨ p = .gone reason ∨ p = .gone .panicked

/-- What the record shows at each place of the loop: what the stage answered when it was started,
the last batch, and why the loop was left. -/
inductive Stands : Phase → Option StageResult → Option (Round σ) → Option ExitReason → Prop where
  | new {phase : Phase} (before : phase = .spawned ∨ phase = .starting) :
      Stands phase none none none
  | stillborn : Stands (.gone .panicked) none none none
  | refused {phase : Phase} {result : StageResult} (refused : result ≠ .ok)
      (out : phase.Out .startFailed) : Stands phase (some result) none (some .startFailed)
  | between {phase : Phase} {now : Option (Round σ)}
      (inside : phase = .checking ∨ phase = .fetching ∨ phase = .starved)
      (closed : ∀ r ∈ now, r.Closes none) : Stands phase (some .ok) now none
  | calling {r : Round σ} {batch : List Frame} {again : Bool} (due : r.Due batch again) :
      Stands (.calling batch again) (some .ok) (some r) none
  | offering {r : Round σ} {c : Reply σ} {again : Bool} (pending : List Frame)
      (last : r.Answered c again) :
      Stands (.offering c.answer.left again c.answer.result pending) (some .ok) (some r) none
  | broken {r : Round σ} {batch : List Frame} {again : Bool} (due : r.Due batch again) :
      Stands (.gone .panicked) (some .ok) (some r) none
  | out {phase : Phase} {r : Round σ} {reason : ExitReason} (closed : r.Closes (some reason))
      (out : phase.Out reason) : Stands phase (some .ok) (some r) (some reason)

/-- The books of `n` calls, of which the frames `pending` are still to be put into the queue behind
the stage. -/
structure Kept (b : Behavior σ) (place : Nat) (rounds : List (Round σ)) (sent : List Dispatch)
    (n : Nat) (pending : List Frame) : Prop where
  taken : ∀ r ∈ rounds, r.Taken
  answered : ∀ c ∈ rounds.flatMap (·.calls), b.process c.stage c.call c.batch = .returned c.answer
  numbered : (rounds.flatMap (·.calls)).map (·.call) =
    (List.range n).map fun iteration => ⟨iteration, place, false⟩
  /-- Before a call, all that the calls before it made had been offered. -/
  ordered : ∀ k c, (rounds.flatMap (·.calls))[k]? = some c →
    c.sent = ((rounds.flatMap (·.calls)).take k).flatMap (·.answer.made)
  offered : sent.map (·.frame) ++ pending = (rounds.flatMap (·.calls)).flatMap (·.answer.made)
  dispatched : ∀ s ∈ sent, s.Offered

/-! ### Answers and their consequences -/

namespace Round

variable {r : Round σ} {c : Reply σ} {again : Bool} {batch : List Frame}

theorem Due.answered (due : r.Due batch again) (hbatch : c.batch = batch) :
    (r.add c).Answered c again := by
  cases due with
  | first calls => exact .first (by rw [add, calls, List.nil_append]) hbatch
  | second calls whole retried =>
    exact .second (by rw [add, calls, List.singleton_append]) whole retried hbatch

/-- After its last answer a batch is offered again, or it is through. -/
theorem Answered.step (last : r.Answered c again) :
    (r.Due c.answer.left true ∧
      Worker.afterCall false c.answer.left again c.answer.result = .calling c.answer.left true) ∨
    (r.Closes none ∧
      Worker.afterCall false c.answer.left again c.answer.result = .checking) ∨
    ∃ reason, r.Closes (some reason) ∧
      Worker.afterCall false c.answer.left again c.answer.result = .leaving reason := by
  cases last with
  | first calls whole =>
    cases hresult : c.answer.result with
    | retry => exact .inl ⟨.second calls whole hresult, rfl⟩
    | ok | noData =>
      have hcloses := Closes.once calls whole (by rw [hresult]; simp)
      rw [hresult] at hcloses
      exact .inr (.inl ⟨hcloses, rfl⟩)
    | endOfStream | error =>
      have hcloses := Closes.once calls whole (by rw [hresult]; simp)
      rw [hresult] at hcloses
      exact .inr (.inr ⟨_, hcloses, rfl⟩)
  | second calls whole retried rest =>
    have hcloses := Closes.twice calls whole retried rest
    cases hresult : c.answer.result with
    | ok | noData =>
      rw [hresult] at hcloses
      exact .inr (.inl ⟨hcloses, rfl⟩)
    | endOfStream | error | retry =>
      rw [hresult] at hcloses
      exact .inr (.inr ⟨_, hcloses, rfl⟩)

/-- A batch that is through gives the reason that follows from its last answer, and no other. -/
theorem Closes.gives_iff {v : Option ExitReason} (h : r.Closes v) (reason : ExitReason) :
    r.Gives reason ↔ v = some reason := by
  cases h with
  | @once c calls whole enough =>
    cases hresult : c.answer.result <;> cases reason <;>
      simp_all [Gives, verdict]
  | @twice c c' calls whole retried rest =>
    cases hresult : c'.answer.result <;> cases reason <;>
      simp_all [Gives, verdict]

/-- A batch that is about to be offered gives no reason to leave. -/
theorem Due.not_gives (due : r.Due batch again) (reason : ExitReason) : ¬r.Gives reason := by
  cases due with
  | first calls => cases reason <;> simp [Gives, calls]
  | second calls whole retried => cases reason <;> simp [Gives, calls, retried]

end Round

/-! ### The books -/

namespace Kept

variable {b : Behavior σ} {place n : Nat} {rounds : List (Round σ)} {sent : List Dispatch}
  {pending : List Frame}

/-- A batch is taken. -/
theorem fetch (h : Kept b place rounds sent n pending) {r : Round σ} (taken : r.Taken)
    (fresh : r.calls = []) : Kept b place (rounds ++ [r]) sent n pending := by
  have hcalls : (rounds ++ [r]).flatMap (·.calls) = rounds.flatMap (·.calls) := by
    rw [List.flatMap_append, List.flatMap_singleton, fresh, List.append_nil]
  constructor
  · intro x hx
    rcases List.mem_append.mp hx with hx | hx
    · exact h.taken x hx
    · obtain rfl := List.mem_singleton.mp hx
      exact taken
  · rw [hcalls]; exact h.answered
  · rw [hcalls]; exact h.numbered
  · rw [hcalls]; exact h.ordered
  · rw [hcalls]; exact h.offered
  · exact h.dispatched

/-- A call comes back when nothing is pending. -/
theorem reply {r : Round σ} (h : Kept b place (rounds ++ [r]) sent n []) {c : Reply σ}
    (answered : b.process c.stage c.call c.batch = .returned c.answer)
    (call : c.call = ⟨n, place, false⟩) (before : c.sent = sent.map (·.frame)) :
    Kept b place (rounds ++ [r.add c]) sent (n + 1) c.answer.made := by
  have hcalls : (rounds ++ [r.add c]).flatMap (·.calls) =
      (rounds ++ [r]).flatMap (·.calls) ++ [c] := by
    simp only [List.flatMap_append, List.flatMap_singleton, Round.add, List.append_assoc]
  have hsent := h.offered
  rw [List.append_nil] at hsent
  constructor
  · intro x hx
    rcases List.mem_append.mp hx with hx | hx
    · exact h.taken x (List.mem_append_left _ hx)
    · obtain rfl := List.mem_singleton.mp hx
      exact h.taken r (List.mem_append_right _ (List.mem_singleton_self r))
  · rw [hcalls]
    intro x hx
    rcases List.mem_append.mp hx with hx | hx
    · exact h.answered x hx
    · obtain rfl := List.mem_singleton.mp hx
      exact answered
  · rw [hcalls, List.map_append, h.numbered, List.range_succ, List.map_append, List.map_singleton,
      List.map_singleton, call]
  · -- The calls before the new one are all the calls there were.
    rw [hcalls]
    intro k x hx
    rw [List.getElem?_append] at hx
    split at hx
    · rename_i hk
      rw [List.take_append_of_le_length (Nat.le_of_lt hk)]
      exact h.ordered k x hx
    · rename_i hk
      rw [List.getElem?_singleton] at hx
      split at hx
      case isFalse => cases hx
      cases hx
      have hlength : k = ((rounds ++ [r]).flatMap (·.calls)).length := by omega
      rw [before, hsent, hlength, List.take_left]
  · rw [hcalls, List.flatMap_append, List.flatMap_singleton, hsent]
  · exact h.dispatched

/-- A frame is put into the queue behind the stage. -/
theorem dispatch {f : Frame} (h : Kept b place rounds sent n (f :: pending)) {s : Dispatch}
    (frame : s.frame = f) (offered : s.Offered) :
    Kept b place rounds (sent ++ [s]) n pending := by
  constructor
  · exact h.taken
  · exact h.answered
  · exact h.numbered
  · exact h.ordered
  · rw [List.map_append, List.map_singleton, frame, List.append_assoc, List.singleton_append]
    exact h.offered
  · intro x hx
    rcases List.mem_append.mp hx with hx | hx
    · exact h.dispatched x hx
    · obtain rfl := List.mem_singleton.mp hx
      exact offered

end Kept

/-! ### One step -/

section Step

variable {b : Behavior σ} {w : Worker σ} {around : Surroundings} {m : Move σ} {place : Nat}

/-- A worker takes the frame at the front, or finds none. -/
theorem fetch_taken (w : Worker σ) (around : Surroundings) :
    w.fetch around = w.still around .starved ∨
      ∃ batch, (w.fetch around).worker = { w with phase := .calling batch false } ∧
        Round.Taken (σ := σ) ⟨batch, [], around.input, (w.fetch around).input⟩ := by
  cases hin : around.input with
  | none =>
    right
    simp only [Worker.fetch, hin]
    exact ⟨[], rfl, rfl, hin⟩
  | some q =>
    simp only [Worker.fetch, hin, Queue.Bounded.dequeue_eq]
    cases hitems : q.items with
    | nil => exact .inl rfl
    | cons f rest => exact .inr ⟨[f], rfl, f, rest, hitems, rfl, rfl⟩

theorem offer_calm {left : List Frame} {again : Bool} {result : StageResult} {f : Frame}
    {pending : List Frame} (hcalm : around.Calm place)
    (hm : w.offer around left again result f pending = some m) :
    m.worker = { w with phase := .offering left again result pending } ∧
      Dispatch.Offered ⟨f, around.output, m.output⟩ := by
  simp only [Worker.offer] at hm
  rcases around.output.offer_cases f with ⟨-, hdown, -⟩ | ⟨-, ho⟩ | ⟨-, -, ho⟩ | ⟨-, -, ho⟩ |
    ⟨-, -, ho⟩
  · rw [hcalm.output] at hdown
    cases hdown
  · rw [ho] at hm
    cases hm
    exact ⟨rfl, by rw [ho], .inl (by rw [ho])⟩
  · rw [ho] at hm
    cases hm
    exact ⟨rfl, by rw [ho], .inr (by rw [ho])⟩
  · rw [ho] at hm
    cases hm
    exact ⟨rfl, by rw [ho], .inl (by rw [ho])⟩
  · rw [ho] at hm
    cases hm

/-- Out of its loop, a worker stops its stage and goes. -/
theorem leaving_cases {reason : ExitReason} (hphase : w.phase = .leaving reason)
    (hm : w.step b around = some m) :
    ∃ stage phase, m.worker = ⟨stage, phase, w.iteration⟩ ∧
      (phase = .gone reason ∨ phase = .gone .panicked) := by
  simp only [Worker.step, hphase] at hm
  split at hm
  · cases hm
  · cases hm
    exact ⟨w.stage, _, rfl, .inr rfl⟩
  · rename_i stage hstop
    cases hm
    exact ⟨stage, _, rfl, .inl rfl⟩

/-- Only a fetch changes the queue before the stage, and only an offer the one behind it. -/
theorem Worker.step_untouched (hm : w.step b around = some m) :
    (w.phase ≠ .fetching → m.input = around.input) ∧
      (w.phase.pending = [] → m.output = around.output) := by
  cases hphase : w.phase with
  | spawned | checking | starved =>
    simp only [step, hphase, Option.some.injEq] at hm
    subst hm
    exact ⟨fun _ => rfl, fun _ => rfl⟩
  | starting | leaving =>
    simp only [step, hphase] at hm
    split at hm <;> cases hm <;> exact ⟨fun _ => rfl, fun _ => rfl⟩
  | fetching =>
    simp only [step, hphase, Option.some.injEq] at hm
    subst hm
    refine ⟨fun hne => absurd rfl hne, fun _ => ?_⟩
    unfold fetch
    split
    · rfl
    · split <;> rfl
  | calling batch again =>
    rcases call_cases hphase hm with ⟨-, rfl⟩ | ⟨p, -, -, -, hin, hout⟩
    · exact ⟨fun _ => rfl, fun _ => rfl⟩
    · exact ⟨fun _ => hin, fun _ => hout⟩
  | offering left again result pending =>
    cases pending with
    | nil =>
      simp only [step, hphase, Option.some.injEq] at hm
      subst hm
      exact ⟨fun _ => rfl, fun _ => rfl⟩
    | cons f pending =>
      simp only [step, hphase, offer] at hm
      refine ⟨fun _ => ?_, fun hnil => by cases hnil⟩
      split at hm <;> cases hm <;> rfl
  | gone reason =>
    rw [step_gone (by rw [hphase]; rfl)] at hm
    cases hm

/-- What can keep a worker from its next step: that it has gone, that its stage waits, or that
there is no room for what the stage made. -/
theorem Worker.step_stuck (hstuck : w.step b around = none) :
    w.phase.isGone = true ∨
      (∃ v, w.visit? around = some v ∧ b.visit w.stage v = .waiting) ∨
      ∃ f rest, w.phase.pending = f :: rest ∧ (around.output.offer f).answer = .wait := by
  cases hphase : w.phase with
  | spawned | checking | fetching | starved => simp [step, hphase] at hstuck
  | starting =>
    simp only [step, hphase] at hstuck
    split at hstuck
    case h_1 hwait =>
      exact .inr (.inl ⟨.start, by simp [visit?, hphase], by rw [Behavior.visit, hwait]; rfl⟩)
    all_goals cases hstuck
  | calling batch again =>
    simp only [step, hphase, call] at hstuck
    split at hstuck
    case h_1 hwait =>
      exact .inr (.inl ⟨.process ⟨w.iteration, around.index, around.stopRequested⟩ batch,
        by simp [visit?, hphase], by rw [Behavior.visit, hwait]; rfl⟩)
    all_goals cases hstuck
  | offering left again result pending =>
    cases pending with
    | nil => simp [step, hphase] at hstuck
    | cons f pending =>
      simp only [step, hphase, offer] at hstuck
      split at hstuck
      case h_1 hwait => exact .inr (.inr ⟨f, pending, rfl, hwait⟩)
      all_goals cases hstuck
  | leaving reason =>
    simp only [step, hphase] at hstuck
    split at hstuck
    case h_1 hwait => exact .inr (.inl ⟨.stop, by simp [visit?, hphase], hwait⟩)
    all_goals cases hstuck
  | gone reason => exact .inl rfl

end Step

namespace Diary

variable {b : Behavior σ} {place : Nat} {d : Diary σ} {around : Surroundings}

/-- What a run keeps: the record fits the place in the loop, and the books are right. -/
structure Sound (b : Behavior σ) (place : Nat) (d : Diary σ) : Prop where
  stands : Stands d.worker.phase d.started d.now d.reason
  past : ∀ r ∈ d.past, r.Closes none
  first : d.now = none → d.past = []
  kept : Kept b place d.rounds d.sent d.worker.iteration d.worker.phase.pending

theorem start_sound (b : Behavior σ) (place : Nat) (stage : σ) : (start stage).Sound b place where
  stands := .new (.inl rfl)
  past := by simp [start]
  first := fun _ => rfl
  kept := by constructor <;> simp [start, rounds, Phase.pending]

/-- One case for each place of the loop. -/
theorem step_sound (h : d.Sound b place) (hcalm : around.Calm place) :
    (d.step b around).Sound b place := by
  unfold step
  split
  · exact h
  rename_i m hm
  obtain ⟨⟨stage, phase, iteration⟩, started, past, now, sent, reason⟩ := d
  obtain ⟨hstands, hpast, hfirst, hkept⟩ := h
  dsimp only at hstands hpast hfirst hkept
  cases hstands with
  | new before =>
    rcases before with rfl | rfl
    · cases hm
      exact ⟨.new (.inr rfl), hpast, hfirst, hkept⟩
    · simp only [Worker.step] at hm
      split at hm
      · cases hm
      · rename_i hstart
        cases hm
        simp only [note, hstart]
        exact ⟨.stillborn, hpast, hfirst, hkept⟩
      · rename_i result stage' hstart
        cases hm
        simp only [note, hstart]
        by_cases hok : result = .ok
        · subst hok
          exact ⟨.between (.inl rfl) (by simp), hpast, hfirst, hkept⟩
        · rw [if_neg hok]
          exact ⟨.refused hok (.inl rfl), hpast, hfirst, hkept⟩
  | stillborn => cases hm
  | refused refused out =>
    rcases out with rfl | rfl | rfl
    · obtain ⟨stage', phase', hworker, rfl | rfl⟩ := leaving_cases rfl hm
      · simp only [note, hworker]
        exact ⟨.refused refused (.inr (.inl rfl)), hpast, hfirst, hkept⟩
      · simp only [note, hworker]
        exact ⟨.refused refused (.inr (.inr rfl)), hpast, hfirst, hkept⟩
    · cases hm
    · cases hm
  | between inside closed =>
    rcases inside with rfl | rfl | rfl
    · simp only [Worker.step, hcalm.stop, Option.some.injEq] at hm
      subst hm
      exact ⟨.between (.inr (.inl rfl)) closed, hpast, hfirst, hkept⟩
    · simp only [Worker.step, Option.some.injEq] at hm
      subst hm
      rcases fetch_taken ⟨stage, .fetching, iteration⟩ around with
        hstarved | ⟨batch, hworker, htaken⟩
      · rw [hstarved]
        exact ⟨.between (.inr (.inr rfl)) closed, hpast, hfirst, hkept⟩
      · simp only [note, hworker]
        refine ⟨.calling (.first rfl), ?_, (by intro h; cases h), hkept.fetch htaken rfl⟩
        intro r hr
        rcases List.mem_append.mp hr with hr | hr
        · exact hpast r hr
        · exact closed r (Option.mem_toList.mp hr)
    · have hopen : around.input.any (·.isShutdown) = false := by
        cases hin : around.input with
        | none => rfl
        | some q => exact hcalm.input q hin
      simp only [Worker.step, hopen, Option.some.injEq] at hm
      subst hm
      exact ⟨.between (.inl rfl) closed, hpast, hfirst, hkept⟩
  | @calling r batch again due =>
    rcases call_cases rfl hm with ⟨-, rfl⟩ | ⟨p, hp, hworker, -⟩
    · exact ⟨.broken due, hpast, hfirst, hkept⟩
    · have hcall : (⟨iteration, around.index, around.stopRequested⟩ : Call) =
          ⟨iteration, place, false⟩ := by rw [hcalm.index, hcalm.stop]
      let c : Reply σ := ⟨stage, ⟨iteration, around.index, around.stopRequested⟩, batch, p,
        sent.map (·.frame)⟩
      have hanswered : (r.add c).Answered c again := due.answered rfl
      simp only [note, hworker]
      exact ⟨.offering p.made hanswered, hpast, (by intro h; cases h), hkept.reply hp hcall rfl⟩
  | @offering r c again pending last =>
    cases pending with
    | nil =>
      simp only [Worker.step, hcalm.stop, Option.some.injEq] at hm
      subst hm
      rcases last.step with ⟨due, hafter⟩ | ⟨closed, hafter⟩ | ⟨reason, closed, hafter⟩
      · rw [hafter]
        exact ⟨.calling due, hpast, hfirst, hkept⟩
      · rw [hafter]
        exact ⟨.between (.inl rfl) (by rintro _ ⟨⟩; exact closed), hpast, hfirst, hkept⟩
      · rw [hafter]
        exact ⟨.out closed (.inl rfl), hpast, hfirst, hkept⟩
    | cons f pending =>
      simp only [Worker.step] at hm
      obtain ⟨hworker, hoffered⟩ := offer_calm hcalm hm
      simp only [note, hworker]
      exact ⟨.offering pending last, hpast, hfirst, hkept.dispatch rfl hoffered⟩
  | broken due => cases hm
  | out closed out =>
    rcases out with rfl | rfl | rfl
    · obtain ⟨stage', phase', hworker, rfl | rfl⟩ := leaving_cases rfl hm
      · simp only [note, hworker]
        exact ⟨.out closed (.inr (.inl rfl)), hpast, hfirst, hkept⟩
      · simp only [note, hworker]
        exact ⟨.out closed (.inr (.inr rfl)), hpast, hfirst, hkept⟩
    · cases hm
    · cases hm

theorem run_sound (h : d.Sound b place) {meetings : List Surroundings}
    (hcalm : ∀ around ∈ meetings, around.Calm place) : (d.run b meetings).Sound b place := by
  induction meetings generalizing d with
  | nil => exact h
  | cons around rest ih =>
    obtain ⟨hfirst, hrest⟩ := List.forall_mem_cons.mp hcalm
    exact ih (step_sound h hfirst) hrest

/-! ## What a run shows -/

/-- What the diary of a run shows. -/
structure Regular (b : Behavior σ) (place : Nat) (d : Diary σ) : Prop where
  /-- A batch before the last one was offered once, or once more after a retry, and gave the worker
  no reason to leave. -/
  past : ∀ r ∈ d.past, r.Closes none
  /-- The last batch is about to be offered, or its last answer is about to be acted on, or it is
  through. -/
  current : ∀ r ∈ d.now,
    (∃ batch again, r.Due batch again ∧
      (d.worker.phase = .calling batch again ∨ d.worker.phase = .gone .panicked)) ∨
    (∃ c again pending, r.Answered c again ∧
      d.worker.phase = .offering c.answer.left again c.answer.result pending) ∨
    r.Closes d.reason
  /-- The worker has left its loop if the stage did not start, or if a batch gives a reason to and
  all that the stage made has been offered. -/
  reasons : ∀ reason, d.reason = some reason ↔
    (reason = .startFailed ∧ ∃ result, d.started = some result ∧ result ≠ .ok) ∨
    (d.worker.phase.isOffering = false ∧ ∃ r ∈ d.rounds, r.Gives reason)
  out : ∀ reason ∈ d.reason, d.worker.phase.Out reason
  /-- Unless the stage has started, it is offered nothing. -/
  silent : d.started ≠ some .ok → d.rounds = []
  kept : Kept b place d.rounds d.sent d.worker.iteration d.worker.phase.pending
  untouched : ∀ around m, d.worker.step b around = some m →
    (d.worker.phase ≠ .fetching → m.input = around.input) ∧
    (d.worker.phase.pending = [] → m.output = around.output)
  /-- Nothing else keeps the worker from going on. -/
  stuck : ∀ around, d.worker.step b around = none →
    d.worker.phase.isGone = true ∨
    (∃ v, d.worker.visit? around = some v ∧ b.visit d.worker.stage v = .waiting) ∨
    ∃ f rest, d.worker.phase.pending = f :: rest ∧ (around.output.offer f).answer = .wait

theorem Sound.current (h : d.Sound b place) {r : Round σ} (hr : r ∈ d.now) :
    (∃ batch again, r.Due batch again ∧
      (d.worker.phase = .calling batch again ∨ d.worker.phase = .gone .panicked)) ∨
    (∃ c again pending, r.Answered c again ∧
      d.worker.phase = .offering c.answer.left again c.answer.result pending) ∨
    r.Closes d.reason := by
  have hstands := h.stands
  rw [Option.mem_def] at hr
  rw [hr] at hstands
  generalize d.worker.phase = phase, d.started = started, d.reason = reason at hstands ⊢
  cases hstands with
  | between inside closed => exact .inr (.inr (closed r rfl))
  | calling due => exact .inl ⟨_, _, due, .inl rfl⟩
  | offering pending last => exact .inr (.inl ⟨_, _, pending, last, rfl⟩)
  | broken due => exact .inl ⟨_, _, due, .inr rfl⟩
  | out closed out => exact .inr (.inr closed)

theorem Sound.reasons (h : d.Sound b place) (reason : ExitReason) :
    d.reason = some reason ↔
      (reason = .startFailed ∧ ∃ result, d.started = some result ∧ result ≠ .ok) ∨
      (d.worker.phase.isOffering = false ∧ ∃ r ∈ d.rounds, r.Gives reason) := by
  -- A batch before the last one gives no reason.
  have hlast : (∃ r ∈ d.rounds, r.Gives reason) ↔ ∃ r ∈ d.now, r.Gives reason := by
    constructor
    · rintro ⟨r, hr, hgives⟩
      rcases List.mem_append.mp hr with hr | hr
      · cases ((h.past r hr).gives_iff reason).mp hgives
      · exact ⟨r, Option.mem_toList.mp hr, hgives⟩
    · rintro ⟨r, hr, hgives⟩
      exact ⟨r, List.mem_append_right _ (Option.mem_toList.mpr hr), hgives⟩
  have hstands := h.stands
  rw [hlast]
  generalize d.worker.phase = phase, d.started = started, d.now = now, d.reason = reason'
    at hstands ⊢
  cases hstands with
  | new before => simp
  | stillborn => simp
  | @refused _ result refused out =>
    constructor
    · rintro ⟨⟩
      exact .inl ⟨rfl, result, rfl, refused⟩
    · rintro (⟨rfl, -⟩ | ⟨-, r, hr, -⟩)
      · rfl
      · cases hr
  | between inside closed =>
    constructor
    · rintro ⟨⟩
    · rintro (⟨-, result, ⟨⟩, hne⟩ | ⟨-, r, hr, hgives⟩)
      · exact absurd rfl hne
      · exact ((closed r hr).gives_iff reason).mp hgives
  | calling due | broken due =>
    constructor
    · rintro ⟨⟩
    · rintro (⟨-, result, ⟨⟩, hne⟩ | ⟨-, r, ⟨⟩, hgives⟩)
      · exact absurd rfl hne
      · exact absurd hgives (due.not_gives reason)
  | offering pending last =>
    constructor
    · rintro ⟨⟩
    · rintro (⟨-, result, ⟨⟩, hne⟩ | ⟨hoffering, -⟩)
      · exact absurd rfl hne
      · cases hoffering
  | @out _ r _ closed out =>
    constructor
    · intro hreason
      refine .inr ⟨?_, r, rfl, (closed.gives_iff reason).mpr hreason⟩
      rcases out with rfl | rfl | rfl <;> rfl
    · rintro (⟨-, result, ⟨⟩, hne⟩ | ⟨-, r, ⟨⟩, hgives⟩)
      · exact absurd rfl hne
      · exact (closed.gives_iff reason).mp hgives

theorem Sound.out (h : d.Sound b place) {reason : ExitReason} (hreason : reason ∈ d.reason) :
    d.worker.phase.Out reason := by
  have hstands := h.stands
  rw [Option.mem_def] at hreason
  rw [hreason] at hstands
  generalize d.worker.phase = phase, d.started = started, d.now = now at hstands ⊢
  cases hstands with
  | refused refused out => exact out
  | out closed out => exact out

theorem Sound.silent (h : d.Sound b place) (hstarted : d.started ≠ some .ok) : d.rounds = [] := by
  have hnone : d.now = none := by
    have hstands := h.stands
    generalize d.worker.phase = phase, d.started = started, d.now = now, d.reason = reason
      at hstands hstarted ⊢
    cases hstands with
    | new before | stillborn | refused refused out => rfl
    | between inside closed | calling due | offering pending last | broken due | out closed out =>
      exact absurd rfl hstarted
  rw [rounds, h.first hnone, hnone]
  rfl

/-- **One retry.** Whatever a stage answers and whatever happens to the queues around its worker, as
long as nobody requests a stop: every batch is offered in one call, or in two if the first asked
for a retry, and then without what the first call took. The worker leaves its loop because of an
answer that says so, or because both calls of a batch asked for a retry. All that a call made has
been offered to the queue behind the stage, in order, before the next call; the calls are numbered
from 0 on; and a stage that did not start is not called. -/
theorem run_retries_once (b : Behavior σ) (stage : σ) (place : Nat)
    (meetings : List Surroundings) (hcalm : ∀ around ∈ meetings, around.Calm place) :
    ((start stage).run b meetings).Regular b place := by
  have h : ((start stage).run b meetings).Sound b place :=
    run_sound (start_sound b place stage) hcalm
  exact ⟨h.past, fun _ => h.current, h.reasons, fun _ => h.out, h.silent, h.kept,
    fun _ _ => Worker.step_untouched, fun _ => Worker.step_stuck⟩

/-- The first batch is taken by a call that makes two frames and asks for a retry, which finds
nothing to take and makes one frame. The second batch is given back twice. -/
theorem run_retries_once_flaky :
    let stage : Stage := .scripted
      { name := "flaky"
        turns := [(.answer .retry, 2), (.answer .ok, 1), (.answer .retry, 0), (.answer .retry, 0)] }
    let around : Surroundings :=
      { index := 1
        stopRequested := false
        input := some { capacity := 2, policy := .block, items := [Frame.zeros 1 1] }
        output := Queue.Bounded.new 4 .dropOldest }
    let d := (start stage).run Stage.behavior (List.replicate 20 around)
    d.Regular Stage.behavior 1 ∧ d.reason = some .error ∧
      d.replies.map (fun c => (c.call.iteration, c.batch.length, c.answer.result)) =
        [(0, 1, .retry), (1, 0, .ok), (2, 1, .retry), (3, 1, .retry)] ∧
      d.rounds.map (·.calls.length) = [2, 2] ∧ d.sent.length = 3 := by
  intro stage around d
  have hcalm : ∀ x ∈ List.replicate 20 around, x.Calm 1 := by
    intro x hx
    obtain rfl := List.eq_of_mem_replicate hx
    exact ⟨rfl, rfl, by rintro _ ⟨⟩; rfl, rfl⟩
  exact ⟨run_retries_once Stage.behavior stage 1 _ hcalm, by decide +kernel, by decide +kernel,
    by decide +kernel, by decide +kernel⟩

end Diary

end Pipeline
end Oscilloscope
