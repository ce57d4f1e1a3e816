import Mathlib.Data.List.Forall2
import Oscilloscope.Proofs.Pipeline.Visits

/-!
# Oscilloscope.Proofs.Pipeline.Lifecycle

Stages move into workers and back, over any number of runs.

A `Program` is a pipeline with a caller who adds stages, starts, polls and stops in any order, while
the workers make their steps in between. It writes down every call that a worker makes to its stage,
so that a stage that has come back can be compared with what these calls make of it.

* `Program.run_sound`: every place tells its past, after every sequence of events.
* `Program.Continues`: the calls since then, and no other request than a stop.
* `Program.exists_stop`: a stop as a whole is a sequence of events.
* `Program.run_poll`: what is left in the last queue comes out in order.
* `Program.Stopped`: what a stop leaves behind. `Program.run_lifecycle`: what a caller can rely on.
-/

namespace Oscilloscope
namespace Pipeline

variable {σ : Type}

/-! ## Programs -/

/-- What a caller can ask of a pipeline. -/
inductive Request (σ : Type) where
  | add (stage : σ) (options : Queue.Options)
  | start
  | poll
  | pollLatest
  | stop

inductive Event (σ : Type) where
  /-- The caller asks for something, unless it is still in a stop. -/
  | request (q : Request σ)
  /-- A stop goes on: it shuts the next queue down, or it ends if every worker has gone. -/
  | proceed
  /-- Worker `i` makes a step, if it can. -/
  | work (i : Nat)

/-- What happens while a stop goes on: the request for it, its steps, and those of the workers. -/
def Event.OfStop : Event σ → Prop
  | .request .stop => True
  | .request _ => False
  | _ => True

/-- A pipeline with its caller and its past. -/
structure Program (σ : Type) where
  runtime : Runtime σ := {}
  /-- How many queues the stop that is going on has shut down. -/
  stopping : Option Nat := none
  /-- The past of each stage. -/
  pasts : List (Record σ) := []
  /-- The frames that the caller has polled, oldest first. -/
  polled : List Frame := []

/-- Calls have been made since, but no run has begun. -/
structure Record.Continues (past past' : Record σ) : Prop where
  added : past'.added = past.added
  starts : past'.starts = past.starts
  visits : past.visits <+: past'.visits

/-- The call that worker `i` makes in its next step. -/
def Runtime.visit? (r : Runtime σ) (i : Nat) : Option Visit := do
  let w ← r.slots[i]?.bind Slot.worker?
  let around ← r.surroundings? i
  w.visit? around

namespace Program

def answer (b : Behavior σ) (p : Program σ) : Request σ → Program σ
  | .add stage options =>
    match p.runtime.add b stage options with
    | .ok (_, runtime) => { p with runtime, pasts := p.pasts ++ [{ added := stage }] }
    | .error _ => p
  | .start =>
    match p.runtime.start with
    | .ok runtime => { p with runtime, pasts := p.pasts.map Record.launched }
    | .error _ => p
  | .poll =>
    { p with runtime := p.runtime.poll.2, polled := p.polled ++ p.runtime.poll.1.toList }
  | .pollLatest =>
    { p with runtime := p.runtime.pollLatest.2,
             polled := p.polled ++ p.runtime.pollLatest.1.toList }
  | .stop =>
    if p.runtime.running then { p with runtime := p.runtime.requestStop, stopping := some 0 }
    else p

def proceed (p : Program σ) : Program σ :=
  match p.stopping with
  | none => p
  | some k =>
    if k < p.runtime.queues.length then
      { p with runtime := p.runtime.shutdownQueue k, stopping := some (k + 1) }
    else if p.runtime.isFinished then { p with runtime := p.runtime.collect, stopping := none }
    else p

def work (b : Behavior σ) (p : Program σ) (i : Nat) : Program σ :=
  match p.runtime.step b i with
  | some runtime =>
    { p with runtime, pasts := p.pasts.modify i fun past => past.visited (p.runtime.visit? i) }
  | none => p

def step (b : Behavior σ) (p : Program σ) : Event σ → Program σ
  | .request q => if p.stopping.isSome then p else p.answer b q
  | .proceed => p.proceed
  | .work i => p.work b i

def run (b : Behavior σ) (p : Program σ) (events : List (Event σ)) : Program σ :=
  events.foldl (step b) p

@[simp] theorem run_nil (b : Behavior σ) (p : Program σ) : p.run b [] = p := rfl
@[simp] theorem run_cons (b : Behavior σ) (p : Program σ) (e : Event σ) (events : List (Event σ)) :
    p.run b (e :: events) = (p.step b e).run b events := rfl

theorem run_append (b : Behavior σ) (p : Program σ) (before after : List (Event σ)) :
    p.run b (before ++ after) = (p.run b before).run b after := List.foldl_append

/-- Every place tells its past. Each stage is with a worker while the pipeline runs, and with none
while it does not. -/
structure Sound (b : Behavior σ) (p : Program σ) : Prop where
  length : p.pasts.length = p.runtime.slots.length
  tells : ∀ {i : Nat} {s : Slot σ} {past : Record σ}, p.runtime.slots[i]? = some s →
    p.pasts[i]? = some past → s.Tells b (p.runtime.exitsOf i) past
  exits : ∀ e ∈ p.runtime.exits, e.stageIndex < p.runtime.slots.length
  working : p.runtime.running = true → ∀ s ∈ p.runtime.slots, ∃ w, s.tenancy = .atWork w
  resting : p.runtime.running = false →
    p.stopping = none ∧ ∀ s ∈ p.runtime.slots, s.worker? = none

end Program

/-! ### Starting -/

/-- Everything that a start can come to. -/
theorem Runtime.start_cases (r : Runtime σ) :
    (r.running = true ∧ r.start = .error .alreadyRunning) ∨
    (r.running = false ∧ r.slots = [] ∧ r.start = .error .emptyPipeline) ∨
    (r.running = false ∧ ∃ s, r.slots.find? Slot.isLost = some s ∧
      r.start = .error (.stageLost s.name)) ∨
    (r.running = false ∧ r.slots ≠ [] ∧ (∀ s ∈ r.slots, s.isLost = false) ∧
      r.start = .ok { r with
        slots := r.slots.map Slot.launch
        queues := r.slots.map fun s => Queue.Bounded.new s.options.capacity s.options.policy
        stopRequested := false
        running := true }) := by
  cases hrun : r.running with
  | true => exact .inl ⟨rfl, by simp [start, hrun]⟩
  | false =>
    right
    by_cases hnil : r.slots = []
    · exact .inl ⟨rfl, hnil, by simp [start, hrun, hnil]⟩
    · right
      cases hlost : r.slots.find? Slot.isLost with
      | some s => exact .inl ⟨rfl, s, rfl, by simp [start, hrun, hnil, hlost]⟩
      | none =>
        refine .inr ⟨rfl, hnil, ?_, by simp [start, hrun, hnil, hlost]⟩
        simpa using List.find?_eq_none.mp hlost

theorem Slot.exists_home {s : Slot σ} (hrest : s.worker? = none) (hlost : s.isLost = false) :
    ∃ stage, s.tenancy = .home stage := by
  cases htenancy : s.tenancy with
  | home stage => exact ⟨stage, rfl⟩
  | atWork w => simp [worker?, htenancy] at hrest
  | lost => simp [isLost, htenancy] at hlost

theorem Slot.isLost_iff {s : Slot σ} (hrest : s.worker? = none) :
    s.isLost = true ↔ s.fate = .panicked := by
  cases htenancy : s.tenancy with
  | atWork w => simp [worker?, htenancy] at hrest
  | _ => simp [isLost, fate, htenancy]

namespace Program

section Steps

variable {b : Behavior σ} {p : Program σ}

theorem new_sound (b : Behavior σ) : ({} : Program σ).Sound b where
  length := rfl
  tells := by simp
  exits := by simp
  working := by simp
  resting := by simp

/-- The same happens at every place, and nobody leaves. -/
theorem Sound.of_map (hs : p.Sound b) {r : Runtime σ} {stopping : Option Nat} {polled : List Frame}
    (f : Slot σ → Slot σ) (g : Record σ → Record σ) (hslots : r.slots = p.runtime.slots.map f)
    (hexits : r.exits = p.runtime.exits)
    (htells : ∀ s ∈ p.runtime.slots, ∀ exits past, s.Tells b exits past →
      (f s).Tells b exits (g past))
    (hworking : r.running = true → ∀ s ∈ p.runtime.slots, ∃ w, (f s).tenancy = .atWork w)
    (hresting : r.running = false →
      stopping = none ∧ ∀ s ∈ p.runtime.slots, (f s).worker? = none) :
    Sound b ⟨r, stopping, p.pasts.map g, polled⟩ where
  length := by simp [hslots, hs.length]
  tells := by
    intro i s past hsi hpast
    simp only [hslots, List.getElem?_map, Option.map_eq_some_iff] at hsi hpast
    obtain ⟨s, hsi, rfl⟩ := hsi
    obtain ⟨past, hpast, rfl⟩ := hpast
    rw [Runtime.exitsOf, hexits]
    exact htells s (List.mem_of_getElem? hsi) _ past (hs.tells hsi hpast)
  exits := by
    rw [hslots, hexits, List.length_map]
    exact hs.exits
  working := by
    intro hrun s hmem
    obtain ⟨s₀, hmem₀, rfl⟩ := List.mem_map.mp (hslots ▸ hmem)
    exact hworking hrun s₀ hmem₀
  resting := by
    intro hrun
    refine ⟨(hresting hrun).1, fun s hmem => ?_⟩
    obtain ⟨s₀, hmem₀, rfl⟩ := List.mem_map.mp (hslots ▸ hmem)
    exact (hresting hrun).2 s₀ hmem₀

/-- What happens to the queues and to the caller alone concerns no stage. -/
theorem Sound.of_same (hs : p.Sound b) {r : Runtime σ} {stopping : Option Nat}
    {polled : List Frame} (hslots : r.slots = p.runtime.slots) (hexits : r.exits = p.runtime.exits)
    (hrunning : r.running = p.runtime.running)
    (hstopping : p.runtime.running = false → stopping = none) :
    Sound b ⟨r, stopping, p.pasts, polled⟩ := by
  have hmap : Sound b ⟨r, stopping, p.pasts.map id, polled⟩ :=
    hs.of_map id id (by rw [hslots, List.map_id]) hexits (fun _ _ _ _ h => h)
      (fun hrun => hs.working (hrunning ▸ hrun))
      (fun hrun => ⟨hstopping (hrunning ▸ hrun), (hs.resting (hrunning ▸ hrun)).2⟩)
  rwa [List.map_id] at hmap

theorem add_sound (hs : p.Sound b) (stage : σ) (options : Queue.Options) :
    (p.answer b (.add stage options)).Sound b := by
  cases hrun : p.runtime.running with
  | true => simpa [answer, Runtime.add, hrun] using hs
  | false =>
    simp only [answer, Runtime.add, hrun, Bool.false_eq_true, if_false]
    -- Nobody has left the new place yet.
    have hfresh : p.runtime.exitsOf p.runtime.slots.length = [] := by
      refine List.filter_eq_nil_iff.mpr fun e he => ?_
      simpa using (hs.exits e he).ne
    refine ⟨?_, ?_, ?_, ?_, ?_⟩
    · simp [hs.length]
    · intro i s past hsi hpast
      rcases Nat.lt_trichotomy i p.runtime.slots.length with hlt | rfl | hgt
      · rw [List.getElem?_append_left hlt] at hsi
        rw [List.getElem?_append_left (hs.length ▸ hlt)] at hpast
        exact hs.tells hsi hpast
      · obtain rfl : Slot.new b stage options = s := by simpa using hsi
        obtain rfl : { added := stage } = past := by simpa [← hs.length] using hpast
        exact hfresh ▸ Slot.new_tells b stage options
      · have hlen := (List.getElem?_eq_some_iff.mp hsi).1
        simp only [List.length_append, List.length_singleton] at hlen
        omega
    · intro e he
      rw [List.length_append]
      exact Nat.lt_add_right _ (hs.exits e he)
    · intro hrun'
      cases hrun'
    · intro _
      refine ⟨(hs.resting hrun).1, fun s hmem => ?_⟩
      rcases List.mem_append.mp hmem with hmem | hmem
      · exact (hs.resting hrun).2 s hmem
      · obtain rfl := List.mem_singleton.mp hmem
        rfl

theorem start_sound (hs : p.Sound b) : (p.answer b .start).Sound b := by
  simp only [answer]
  rcases p.runtime.start_cases with ⟨-, hstart⟩ | ⟨-, -, hstart⟩ | ⟨-, s, -, hstart⟩ |
    ⟨hrun, -, hlost, hstart⟩
  · rw [hstart]
    exact hs
  · rw [hstart]
    exact hs
  · rw [hstart]
    exact hs
  · rw [hstart]
    have hhome : ∀ s ∈ p.runtime.slots, ∃ stage, s.tenancy = .home stage := fun s hmem =>
      Slot.exists_home ((hs.resting hrun).2 s hmem) (hlost s hmem)
    refine hs.of_map Slot.launch Record.launched rfl rfl ?_ ?_ (fun hrest => by cases hrest)
    · intro s hmem exits past h
      obtain ⟨stage, hstage⟩ := hhome s hmem
      exact h.launch hstage
    · intro _ s hmem
      obtain ⟨stage, hstage⟩ := hhome s hmem
      exact ⟨{ stage }, by rw [Slot.launch_of_home hstage]⟩

theorem taken_sound (hs : p.Sound b) {r : Runtime σ} {polled : List Frame}
    (h : Taken p.runtime r) : Sound b { p with runtime := r, polled } := by
  have hstopping := fun hrun => (hs.resting hrun).1
  rcases h with rfl | ⟨q, items, -, rfl⟩
  · exact hs.of_same rfl rfl rfl hstopping
  · exact hs.of_same rfl rfl rfl hstopping

theorem stop_sound (hs : p.Sound b) : (p.answer b .stop).Sound b := by
  cases hrun : p.runtime.running with
  | false => simpa [answer, hrun] using hs
  | true =>
    simp only [answer, hrun, if_true]
    have hmap : Sound b ⟨p.runtime.requestStop, some 0, p.pasts.map id, p.polled⟩ := by
      refine hs.of_map Slot.mark id rfl rfl ?_ ?_ ?_
      · intro s hmem exits past h
        obtain ⟨w, hw⟩ := hs.working hrun s hmem
        exact h.mark hw
      · intro _ s hmem
        obtain ⟨w, hw⟩ := hs.working hrun s hmem
        exact ⟨w, (Slot.mark_same s).1.trans hw⟩
      · intro hrest
        exact absurd (hrun.symm.trans hrest) (by simp)
    rwa [List.map_id] at hmap

theorem answer_sound (hs : p.Sound b) (q : Request σ) : (p.answer b q).Sound b := by
  cases q with
  | add stage options => exact add_sound hs stage options
  | start => exact start_sound hs
  | poll => exact taken_sound hs (taken_poll p.runtime)
  | pollLatest => exact taken_sound hs (taken_pollLatest p.runtime)
  | stop => exact stop_sound hs

/-- The stop has come to its end: every worker has gone, and the stages come back. -/
theorem collect_sound (hs : p.Sound b) (hrun : p.runtime.running = true)
    (hfinished : p.runtime.isFinished = true) :
    Sound b { p with runtime := p.runtime.collect, stopping := none } := by
  have hgone : ∀ s ∈ p.runtime.slots, ∃ w, s.tenancy = .atWork w ∧ w.phase.isGone = true := by
    intro s hmem
    obtain ⟨w, hw⟩ := hs.working hrun s hmem
    have hslot := List.all_eq_true.mp hfinished s hmem
    exact ⟨w, hw, by simpa [Slot.worker?, hw] using hslot⟩
  have hmap : Sound b ⟨p.runtime.collect, none, p.pasts.map id, p.polled⟩ := by
    refine hs.of_map Slot.finish id rfl rfl ?_ (fun hrun' => by cases hrun') fun _ => ⟨rfl, ?_⟩
    · intro s hmem exits past h
      obtain ⟨w, hw, hg⟩ := hgone s hmem
      exact h.finish hw hg
    · intro s hmem
      obtain ⟨w, hw, hg⟩ := hgone s hmem
      exact (Slot.finish_same hw hg).2.2.1
  rwa [List.map_id] at hmap

theorem running_of_stopping (hs : p.Sound b) {k : Nat} (hk : p.stopping = some k) :
    p.runtime.running = true := by
  by_contra hrun
  have hnone := (hs.resting (by simpa using hrun)).1
  rw [hk] at hnone
  cases hnone

theorem proceed_sound (hs : p.Sound b) : p.proceed.Sound b := by
  cases hk : p.stopping with
  | none => simpa [proceed, hk] using hs
  | some k =>
    have hrun := running_of_stopping hs hk
    simp only [proceed, hk]
    split
    · refine hs.of_same rfl rfl rfl fun hrest => ?_
      exact absurd (hrun.symm.trans hrest) (by simp)
    · split
      · rename_i hfinished
        exact collect_sound hs hrun hfinished
      · exact hs

theorem work_sound (hs : p.Sound b) (i : Nat) : (p.work b i).Sound b := by
  cases hstep : p.runtime.step b i with
  | none => simpa [work, hstep] using hs
  | some r =>
    obtain ⟨s, w, around, m, hsi, hw, haround, hm, rfl, -⟩ := Runtime.exists_of_step hstep
    have hi : i < p.runtime.slots.length := (List.getElem?_eq_some_iff.mp hsi).1
    have hvisit : p.runtime.visit? i = w.visit? around := by
      simp [Runtime.visit?, hsi, Slot.worker?, hw, haround]
    simp only [work, hstep, hvisit]
    refine ⟨?_, ?_, ?_, ?_, ?_⟩
    · simp [hs.length]
    · intro j s' past hsj hpast
      rw [Runtime.slots_apply, List.getElem?_set] at hsj
      rw [List.getElem?_modify] at hpast
      rw [exitsOf_apply]
      by_cases hj : i = j
      · subst hj
        rw [if_pos rfl, if_pos hi] at hsj
        obtain rfl := Option.some.inj hsj
        simp only [if_true, Option.map_eq_map, Option.map_eq_some_iff] at hpast
        obtain ⟨past, hpast, rfl⟩ := hpast
        rw [if_pos rfl]
        exact (hs.tells hsi hpast).work hw hm i
      · rw [if_neg hj] at hsj
        rw [if_neg hj, List.append_nil]
        exact hs.tells hsj (by simpa [hj] using hpast)
    · intro e he
      rw [Runtime.slots_apply, List.length_set]
      rcases List.mem_append.mp he with he | he
      · exact hs.exits e he
      · rw [exitOf_eq] at he
        exact (Phase.of_mem_exit he).1 ▸ hi
    · intro hrun s' hmem
      rcases List.mem_or_eq_of_mem_set hmem with hmem | rfl
      · exact hs.working hrun s' hmem
      · exact ⟨m.worker, rfl⟩
    · intro hrest
      have hnone := (hs.resting hrest).2 s (List.mem_of_getElem? hsi)
      simp [Slot.worker?, hw] at hnone

theorem step_sound (hs : p.Sound b) (e : Event σ) : (p.step b e).Sound b := by
  cases e with
  | request q =>
    simp only [step]
    split
    · exact hs
    · exact answer_sound hs q
  | proceed => exact proceed_sound hs
  | work i => exact work_sound hs i

theorem run_sound (hs : p.Sound b) (events : List (Event σ)) : (p.run b events).Sound b := by
  induction events generalizing p with
  | nil => exact hs
  | cons e events ih => exact ih (step_sound hs e)

end Steps

/-! ### A stop as a whole -/

/-- Every stage has gone on from where it was, and the caller has polled nothing. -/
structure Continues (p p' : Program σ) : Prop where
  length : p'.pasts.length = p.pasts.length
  pasts : ∀ {i : Nat} {past : Record σ}, p.pasts[i]? = some past →
    ∃ past', p'.pasts[i]? = some past' ∧ past.Continues past'
  polled : p'.polled = p.polled

section Stop

variable {b : Behavior σ} {p p' p'' : Program σ}

theorem Continues.of_same (hpasts : p'.pasts = p.pasts) (hpolled : p'.polled = p.polled) :
    p.Continues p' :=
  ⟨by rw [hpasts], fun h => ⟨_, hpasts ▸ h, rfl, rfl, List.prefix_rfl⟩, hpolled⟩

theorem Continues.trans (h : p.Continues p') (h' : p'.Continues p'') : p.Continues p'' where
  length := h'.length.trans h.length
  pasts := by
    intro i past hpast
    obtain ⟨past', hpast', hadded, hstarts, hvisits⟩ := h.pasts hpast
    obtain ⟨past'', hpast'', hadded', hstarts', hvisits'⟩ := h'.pasts hpast'
    exact ⟨past'', hpast'', hadded'.trans hadded, hstarts'.trans hstarts,
      hvisits.trans hvisits'⟩
  polled := h'.polled.trans h.polled

theorem work_continues (b : Behavior σ) (p : Program σ) (i : Nat) : p.Continues (p.work b i) := by
  cases hstep : p.runtime.step b i with
  | none =>
    rw [work, hstep]
    exact .of_same rfl rfl
  | some r =>
    simp only [work, hstep]
    refine ⟨List.length_modify .., fun {j past} hpast => ?_, rfl⟩
    by_cases hj : i = j
    · subst hj
      exact ⟨past.visited (p.runtime.visit? i), by simp [hpast], rfl, rfl,
        List.prefix_append _ _⟩
    · exact ⟨past, by simp [hj, hpast], rfl, rfl, List.prefix_rfl⟩

theorem step_continues (b : Behavior σ) (p : Program σ) {e : Event σ} (he : e.OfStop) :
    p.Continues (p.step b e) := by
  cases e with
  | work i => exact work_continues b p i
  | proceed =>
    simp only [step, proceed]
    split
    · exact .of_same rfl rfl
    · split
      · exact .of_same rfl rfl
      · split <;> exact .of_same rfl rfl
  | request q =>
    cases q with
    | stop =>
      simp only [step, answer]
      split
      · exact .of_same rfl rfl
      · split <;> exact .of_same rfl rfl
    | _ => exact absurd he id

theorem run_continues (b : Behavior σ) (p : Program σ) {events : List (Event σ)}
    (hevents : ∀ e ∈ events, e.OfStop) : p.Continues (p.run b events) := by
  induction events generalizing p with
  | nil => exact .of_same rfl rfl
  | cons e events ih =>
    rw [List.forall_mem_cons] at hevents
    exact (step_continues b p hevents.1).trans (ih _ hevents.2)

theorem length_shutdownQueues (l : List Nat) (r : Runtime σ) :
    (l.foldl Runtime.shutdownQueue r).queues.length = r.queues.length := by
  induction l generalizing r with
  | nil => rfl
  | cons k l ih => rw [List.foldl_cons, ih, Runtime.shutdownQueue, List.length_modify]

theorem proceed_shuts {p : Program σ} {k : Nat} (hk : p.stopping = some k)
    (hlt : k < p.runtime.queues.length) : p.proceed =
      { p with runtime := p.runtime.shutdownQueue k, stopping := some (k + 1) } := by
  simp only [proceed, hk, if_pos hlt]

theorem proceed_ends {p : Program σ} {k : Nat} (hk : p.stopping = some k)
    (hle : p.runtime.queues.length ≤ k) (hfinished : p.runtime.isFinished = true) :
    p.proceed = { p with runtime := p.runtime.collect, stopping := none } := by
  simp only [proceed, hk, if_neg (Nat.not_lt.mpr hle), if_pos hfinished]

theorem run_proceed {p : Program σ} {k n : Nat} (hk : p.stopping = some k)
    (hn : k + n ≤ p.runtime.queues.length) :
    p.run b (List.replicate n .proceed) =
      { p with runtime := (List.range' k n).foldl Runtime.shutdownQueue p.runtime,
               stopping := some (k + n) } := by
  induction n generalizing p k with
  | zero => simp [← hk]
  | succ n ih =>
    have hlen : (p.runtime.shutdownQueue k).queues.length = p.runtime.queues.length :=
      length_shutdownQueues [k] p.runtime
    have hstep : p.step b .proceed =
        { p with runtime := p.runtime.shutdownQueue k, stopping := some (k + 1) } :=
      proceed_shuts hk (by omega)
    have hrest : k + 1 + n ≤ (p.step b .proceed).runtime.queues.length := by
      rw [hstep, hlen]
      omega
    rw [List.replicate_succ, run_cons, ih (by rw [hstep]) hrest, hstep, List.range'_succ,
      List.foldl_cons, Nat.add_assoc, Nat.add_comm 1 n]

theorem exists_settle (b : Behavior σ) (quiet : σ → Bool) (fuel : Nat) (p : Program σ) :
    ∃ events, (∀ e ∈ events, e.OfStop) ∧
      (p.run b events).runtime = p.runtime.settle b quiet fuel ∧
      (p.run b events).stopping = p.stopping ∧
      (p.runtime.settle b quiet fuel).queues.length = p.runtime.queues.length := by
  induction fuel generalizing p with
  | zero => exact ⟨[], List.forall_mem_nil _, rfl, rfl, rfl⟩
  | succ fuel ih =>
    cases hlast : p.runtime.stepLast b quiet with
    | none => exact ⟨[], List.forall_mem_nil _, by simp [Runtime.settle, hlast]⟩
    | some r =>
      obtain ⟨i, -, hi⟩ := List.exists_of_findSome?_eq_some hlast
      have hstep : p.runtime.step b i = some r := by
        split at hi
        · cases hi
        · exact hi
      obtain ⟨s, w, around, m, -, -, -, -, hr, -⟩ := Runtime.exists_of_step hstep
      have hlen : r.queues.length = p.runtime.queues.length := hr ▸ Runtime.length_queues_apply
      have hwork : (p.step b (.work i)).runtime = r ∧
          (p.step b (.work i)).stopping = p.stopping := by
        simp [step, work, hstep]
      obtain ⟨events, hevents, hrun, hstopping, hqueues⟩ := ih (p.step b (.work i))
      rw [hwork.1] at hrun hqueues
      rw [hwork.2] at hstopping
      refine ⟨.work i :: events, List.forall_mem_cons.mpr ⟨trivial, hevents⟩, ?_, hstopping, ?_⟩
      · simpa [Runtime.settle, hlast] using hrun
      · simpa [Runtime.settle, hlast, hlen] using hqueues

/-- A stop that waits until every worker has gone is a sequence of events, and the last one ends
it. -/
theorem exists_stop {p : Program σ} {quiet : σ → Bool} {fuel : Nat} (hfree : p.stopping = none)
    (hrun : p.runtime.running = true)
    (hfinished : (((List.range p.runtime.queues.length).foldl Runtime.shutdownQueue
      p.runtime.requestStop).settle b quiet fuel).isFinished = true) :
    ∃ events, (∀ e ∈ events, e.OfStop) ∧
      (p.run b events).proceed.runtime = p.runtime.stop b quiet fuel ∧
      (p.run b events).stopping.isSome ∧ (p.run b events).proceed.stopping = none := by
  let asked : Program σ := { p with runtime := p.runtime.requestStop, stopping := some 0 }
  let n := p.runtime.queues.length
  let shut : Program σ :=
    { p with runtime := (List.range n).foldl Runtime.shutdownQueue p.runtime.requestStop,
             stopping := some n }
  have hasked : p.step b (.request .stop) = asked := by
    simp [step, answer, hfree, hrun, asked]
  have hshut : asked.run b (List.replicate n .proceed) = shut := by
    rw [@run_proceed σ b asked 0 n rfl (Nat.zero_add n).le, Nat.zero_add, ← List.range_eq_range']
  obtain ⟨events, hevents, hsettled, hstopping, hqueues⟩ := exists_settle b quiet fuel shut
  have hlast : (shut.run b events).proceed = { shut.run b events with
      runtime := (shut.runtime.settle b quiet fuel).collect, stopping := none } := by
    rw [← hsettled]
    refine proceed_ends hstopping ?_ (hsettled ▸ hfinished)
    rw [hsettled, hqueues]
    exact (length_shutdownQueues (List.range n) p.runtime.requestStop).le
  refine ⟨.request .stop :: (List.replicate n .proceed ++ events), ?_, ?_⟩
  · rw [List.forall_mem_cons, List.forall_mem_append]
    refine ⟨trivial, fun e he => ?_, hevents⟩
    obtain rfl := List.eq_of_mem_replicate he
    trivial
  · rw [run_cons, hasked, run_append, hshut, hlast, hstopping]
    exact ⟨by simp [Runtime.stop, hrun, shut, n], rfl, rfl⟩

end Stop

end Program

/-! ### Polling -/

/-- The frames that wait behind the last stage, oldest first. -/
def Runtime.ready (r : Runtime σ) : List Frame := (r.queues.getLast?.map (·.items)).getD []

theorem Runtime.ready_poll (r : Runtime σ) :
    r.poll.1 = r.ready.head? ∧ r.poll.2.ready = r.ready.tail := by
  cases hq : r.queues.getLast? with
  | none => simp [poll, ready, hq]
  | some q =>
    rw [poll_of_last hq]
    have hne : r.queues ≠ [] := by
      rintro hnil
      simp [hnil] at hq
    have hlast : (r.withLast { q with items := q.items.tail }).queues.getLast? =
        some { q with items := q.items.tail } := by
      rw [withLast, List.getLast?_eq_getElem?, List.length_set]
      exact List.getElem?_set_self (by have := List.length_pos_iff.mpr hne; omega)
    simp [ready, hq, hlast]

namespace Program

section Results

variable {b : Behavior σ} {p : Program σ}

theorem run_poll (hfree : p.stopping = none) (n : Nat) :
    (p.run b (List.replicate n (.request .poll))).polled =
      p.polled ++ p.runtime.ready.take n := by
  induction n generalizing p with
  | zero => simp
  | succ n ih =>
    have hstep : p.step b (.request .poll) = p.answer b .poll := by simp [step, hfree]
    obtain ⟨hfirst, hrest⟩ := p.runtime.ready_poll
    rw [List.replicate_succ, run_cons, hstep, @ih (p.answer b .poll) hfree]
    simp only [answer, hfirst, hrest]
    cases p.runtime.ready with
    | nil => simp
    | cons f frames => simp

/-! ### What a caller can rely on -/

/-- The first stage that has broken off. -/
def FirstLost (b : Behavior σ) (pasts : List (Record σ)) (past : Record σ) : Prop :=
  ∃ i : Nat, pasts[i]? = some past ∧ past.fate b = .panicked ∧
    ∀ j earlier, j < i → pasts[j]? = some earlier → earlier.fate b ≠ .panicked

theorem FirstLost.unique {pasts : List (Record σ)} {past past' : Record σ}
    (h : FirstLost b pasts past) (h' : FirstLost b pasts past') : past = past' := by
  obtain ⟨i, hi, hlost, hfirst⟩ := h
  obtain ⟨i', hi', hlost', hfirst'⟩ := h'
  rcases Nat.lt_trichotomy i i' with hlt | rfl | hgt
  · exact absurd hlost (hfirst' i past hlt hi)
  · exact Option.some.inj (hi.symm.trans hi')
  · exact absurd hlost' (hfirst i' past' hgt hi')

theorem Sound.exists_past (hs : p.Sound b) {i : Nat} (hi : i < p.runtime.slots.length) :
    ∃ past, p.pasts[i]? = some past :=
  ⟨_, List.getElem?_eq_getElem (hs.length ▸ hi)⟩

theorem Sound.exists_slot (hs : p.Sound b) {i : Nat} {past : Record σ}
    (hpast : p.pasts[i]? = some past) : ∃ s, p.runtime.slots[i]? = some s := by
  have hi := (List.getElem?_eq_some_iff.mp hpast).1
  exact ⟨_, List.getElem?_eq_getElem (hs.length ▸ hi)⟩

theorem Sound.isLost_iff (hs : p.Sound b) (hrun : p.runtime.running = false) {i : Nat}
    {s : Slot σ} {past : Record σ} (hsi : p.runtime.slots[i]? = some s)
    (hpast : p.pasts[i]? = some past) : s.isLost = true ↔ past.fate b = .panicked := by
  rw [Slot.isLost_iff ((hs.resting hrun).2 s (List.mem_of_getElem? hsi)), (hs.tells hsi hpast).fate]

theorem firstLost_of_find (hs : p.Sound b) (hrun : p.runtime.running = false) {s : Slot σ}
    (hfind : p.runtime.slots.find? Slot.isLost = some s) :
    ∃ past, FirstLost b p.pasts past ∧ s.name = b.name past.added := by
  obtain ⟨hlost, i, hi, rfl, hbefore⟩ := List.find?_eq_some_iff_getElem.mp hfind
  have hsi : p.runtime.slots[i]? = some p.runtime.slots[i] := List.getElem?_eq_getElem hi
  obtain ⟨past, hpast⟩ := hs.exists_past hi
  refine ⟨past, ⟨i, hpast, (hs.isLost_iff hrun hsi hpast).mp hlost, ?_⟩, (hs.tells hsi hpast).name⟩
  intro j earlier hj hearlier hpanic
  have hsj : p.runtime.slots[j]? = some p.runtime.slots[j] :=
    List.getElem?_eq_getElem (Nat.lt_trans hj hi)
  have hlostj := (hs.isLost_iff hrun hsj hearlier).mpr hpanic
  have hhere := hbefore j hj
  rw [hlostj] at hhere
  cases hhere

/-- A start fails exactly while the pipeline runs, when it has no stages, or when one has broken
off. -/
theorem start_eq_error_iff (hs : p.Sound b) (e : PipelineError) :
    p.runtime.start = .error e ↔
      (p.runtime.running = true ∧ e = .alreadyRunning) ∨
      (p.runtime.running = false ∧ p.pasts = [] ∧ e = .emptyPipeline) ∨
      (p.runtime.running = false ∧
        ∃ past, FirstLost b p.pasts past ∧ e = .stageLost (b.name past.added)) := by
  have hempty : p.pasts = [] ↔ p.runtime.slots = [] := by
    rw [← List.length_eq_zero_iff, ← List.length_eq_zero_iff, hs.length]
  have hnobody : p.runtime.slots = [] → ∀ past, ¬FirstLost b p.pasts past := by
    rintro hnil past ⟨i, hi, -⟩
    simp [hempty.mpr hnil] at hi
  rcases p.runtime.start_cases with ⟨hrun, hstart⟩ | ⟨hrun, hnil, hstart⟩ |
    ⟨hrun, s, hfind, hstart⟩ | ⟨hrun, hne, hnone, hstart⟩
  · simp [hstart, hrun, eq_comm]
  · simp [hstart, hrun, hempty, hnil, hnobody hnil, eq_comm]
  · have hne : p.pasts ≠ [] := by
      rw [Ne, hempty]
      rintro hnil
      simp [hnil] at hfind
    obtain ⟨past, hfirst, hname⟩ := firstLost_of_find hs hrun hfind
    have honly : ∀ past', FirstLost b p.pasts past' ↔ past' = past := fun past' =>
      ⟨fun h => h.unique hfirst, fun h => h ▸ hfirst⟩
    simp [hstart, hrun, hne, honly, hname, eq_comm]
  · have hnolost : ∀ past, ¬FirstLost b p.pasts past := by
      rintro past ⟨i, hi, hpanic, -⟩
      obtain ⟨s, hsi⟩ := hs.exists_slot hi
      have hlost := (hs.isLost_iff hrun hsi hi).mpr hpanic
      simp [hnone s (List.mem_of_getElem? hsi)] at hlost
    simp [hstart, hrun, hempty, hne, hnolost]

/-- What a start makes of a stage and of the queue behind it. -/
structure Fresh (s : Slot σ) (q : Queue.Bounded Frame) : Prop where
  working : s.tenancy matches .atWork _
  made : s.made = 0
  items : q.items = []
  accepted : q.accepted = 0
  dropped : q.dropped = 0
  isShutdown : q.isShutdown = false
  capacity : q.capacity = max s.options.capacity 1
  policy : q.policy = s.options.policy

theorem fresh_of_start (hs : p.Sound b) {r : Runtime σ} (hstart : p.runtime.start = .ok r) :
    r.running = true ∧ List.Forall₂ Fresh r.slots r.queues := by
  rcases p.runtime.start_cases with ⟨-, h⟩ | ⟨-, -, h⟩ | ⟨-, s, -, h⟩ | ⟨hrun, -, hlost, h⟩
  · rw [h] at hstart; cases hstart
  · rw [h] at hstart; cases hstart
  · rw [h] at hstart; cases hstart
  · rw [h] at hstart
    cases hstart
    refine ⟨rfl, ?_⟩
    rw [List.forall₂_map_left_iff, List.forall₂_map_right_iff, List.forall₂_same]
    intro s hmem
    obtain ⟨stage, hhome⟩ := Slot.exists_home ((hs.resting hrun).2 s hmem) (hlost s hmem)
    rw [Slot.launch_of_home hhome]
    exact ⟨rfl, rfl, rfl, rfl, rfl, rfl, rfl, rfl⟩

/-- The end of a stop: it touches no queue, and every worker is shown as stopped. -/
theorem stopped_of_proceed (hs : p.Sound b) (hrun : p.runtime.running = true)
    (hend : p.proceed.runtime.running = false) :
    p.proceed.runtime.queues = p.runtime.queues ∧
      ∀ s ∈ p.proceed.runtime.slots, s.state = .stopped := by
  simp only [proceed] at hend ⊢
  split at hend
  · exact absurd (hrun.symm.trans hend) (by simp)
  · split at hend
    · exact absurd (hrun.symm.trans hend) (by simp)
    · split at hend
      · rename_i k hk hall hfinished
        simp only [if_neg hall, if_pos hfinished]
        refine ⟨rfl, fun s hmem => ?_⟩
        obtain ⟨s, hmem', rfl⟩ := List.mem_map.mp hmem
        obtain ⟨w, hw⟩ := hs.working hrun s hmem'
        simp only [Slot.finish, hw]
      · exact absurd (hrun.symm.trans hend) (by simp)

/-- A stage at rest: what its place shows of its past, and the exits that its workers have sent. -/
structure AtRest (b : Behavior σ) (past : Record σ) (s : Slot σ) (exits : List Exit) : Prop where
  name : s.name = b.name past.added
  state : s.state = if past.starts = 0 then .idle else .stopped
  /-- The stage is back in the state it had reached, unless it has broken off. -/
  tenancy : (past.fate b = .panicked ∧ s.tenancy = .lost) ∨
    ∃ stage, past.fate b = .returned stage ∧ s.tenancy = .home stage
  reported : exits.length = past.starts
  labels : ∀ e ∈ exits, e.name = s.name
  panics : (∃ e ∈ exits, e.reason = .panicked) ↔ past.fate b = .panicked

theorem atRest_of_not_running (hs : p.Sound b) (hrun : p.runtime.running = false) {i : Nat}
    {past : Record σ} (hpast : p.pasts[i]? = some past) :
    ∃ s, p.runtime.slots[i]? = some s ∧ AtRest b past s (p.runtime.exitsOf i) := by
  obtain ⟨s, hsi⟩ := hs.exists_slot hpast
  have hrest := (hs.resting hrun).2 s (List.mem_of_getElem? hsi)
  have htells := hs.tells hsi hpast
  refine ⟨s, hsi, htells.name, htells.state hrest, ?_, ?_, htells.labels, ?_⟩
  · rw [← htells.fate]
    cases htenancy : s.tenancy with
    | home stage => exact .inr ⟨stage, by simp only [Slot.fate, htenancy], rfl⟩
    | atWork w => simp [Slot.worker?, htenancy] at hrest
    | lost => exact .inl ⟨by simp only [Slot.fate, htenancy], rfl⟩
  · rw [← htells.reported, Slot.pending_of_rest hrest, Nat.add_zero]
  · rw [← htells.fate]
    exact htells.panics

/-- What a stop leaves of a pipeline that was running. -/
structure Stopped (b : Behavior σ) (p p' : Program σ) : Prop where
  running : p'.runtime.running = false
  stopping : p'.stopping = none
  /-- No stage has been started again, and nothing has been polled. -/
  continues : p.Continues p'
  states : ∀ s ∈ p'.runtime.slots, s.state = .stopped
  stages : ∀ {i : Nat} {past : Record σ}, p'.pasts[i]? = some past →
    ∃ s, p'.runtime.slots[i]? = some s ∧ AtRest b past s (p'.runtime.exitsOf i)
  /-- What is left in the last queue can be polled. -/
  ready : ∀ n, (p'.run b (List.replicate n (.request .poll))).polled =
    p.polled ++ p'.runtime.ready.take n
  again : p'.answer b .stop = p' ∧ ∀ quiet fuel, p'.runtime.stop b quiet fuel = p'.runtime

theorem answer_stop (hrun : p.runtime.running = false) : p.answer b .stop = p := by
  simp [answer, hrun]

theorem stop_of_not_running {r : Runtime σ} (hrun : r.running = false) (quiet : σ → Bool)
    (fuel : Nat) : r.stop b quiet fuel = r := by
  simp [Runtime.stop, hrun]

/-- A stop as one operation, if its workers leave. -/
theorem stopped_stop (hs : p.Sound b) (hfree : p.stopping = none) (hrun : p.runtime.running = true)
    {quiet : σ → Bool} {fuel : Nat}
    (hfinished : (((List.range p.runtime.queues.length).foldl Runtime.shutdownQueue
      p.runtime.requestStop).settle b quiet fuel).isFinished = true) :
    ∃ more, (∀ e ∈ more, e.OfStop) ∧ (p.run b more).runtime = p.runtime.stop b quiet fuel ∧
      Stopped b p (p.run b more) := by
  obtain ⟨events, hevents, hruntime, hstopping, hfree'⟩ := exists_stop hfree hrun hfinished
  have hmore : ∀ e ∈ events ++ [Event.proceed], e.OfStop := by
    rw [List.forall_mem_append, List.forall_mem_singleton]
    exact ⟨hevents, trivial⟩
  have hlast : p.run b (events ++ [.proceed]) = (p.run b events).proceed := run_append b p _ _
  have hbefore : (p.run b events).Sound b := run_sound hs events
  have hafter : (p.run b events).proceed.Sound b := proceed_sound hbefore
  obtain ⟨k, hk⟩ := Option.isSome_iff_exists.mp hstopping
  have hrest : (p.run b events).proceed.runtime.running = false := by
    rw [hruntime, Runtime.stop, if_pos hrun]
    rfl
  have hcontinues := run_continues b p hmore
  refine ⟨events ++ [.proceed], hmore, by rw [hlast, hruntime], ?_⟩
  rw [hlast] at hcontinues ⊢
  exact {
    running := hrest
    stopping := hfree'
    continues := hcontinues
    states := (stopped_of_proceed hbefore (running_of_stopping hbefore hk) hrest).2
    stages := fun hpast => atRest_of_not_running hafter hrest hpast
    ready := fun n => hcontinues.polled ▸ run_poll hfree' n
    again := ⟨answer_stop hrest, stop_of_not_running hrest⟩ }

/-- A stage that breaks off in its first call, before one that forwards. -/
def faulty : List (Event Stage) :=
  [.request (.add (.scripted { name := "faulty", turns := [(.panic, 0)] }) ⟨1, .block⟩),
   .request (.add (.scripted { name := "relay" }) ⟨1, .block⟩),
   .request .start] ++ List.replicate 5 (.work 0) ++ List.replicate 2 (.work 1)

/-- The last queue has been shut down, and both workers have gone. -/
def breaking : List (Event Stage) :=
  faulty ++ [.request .stop, .proceed, .proceed, .work 1, .work 1]

end Results

end Program

end Pipeline
end Oscilloscope
