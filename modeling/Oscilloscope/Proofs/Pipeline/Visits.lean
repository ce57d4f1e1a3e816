import Oscilloscope.Proofs.Pipeline.Stopping

/-!
# Oscilloscope.Proofs.Pipeline.Visits

The calls that workers make to a stage, and what they make of it.

Nothing is assumed of a stage here: its calls may answer with anything, wait, or break off.

* `Behavior.visits`: what becomes of a stage that is called in a given order.
* `Worker.step_fate`: every step of a worker is at most one such call.
* `Slot.Tells`: what the place of a stage shows of its past. It is kept when the stage is given to a
  worker (`Slot.Tells.launch`), when the worker makes a step (`Slot.Tells.work`), when a stop is
  requested (`Slot.Tells.mark`), and when the stage comes back (`Slot.Tells.finish`).
-/

namespace Oscilloscope

def Attempt.bind {α β : Type} (a : Attempt α) (f : α → Attempt β) : Attempt β :=
  match a with
  | returned x => f x
  | waiting => waiting
  | panicked => panicked

/-- A call that a worker makes to its stage. -/
inductive Visit where
  | start
  | process (call : Call) (batch : List Frame)
  | stop

namespace Behavior

variable {σ : Type}

/-- The stage after one call, if there is one. -/
def visit (b : Behavior σ) (s : σ) : Visit → Attempt σ
  | .start => (b.start s).map Prod.snd
  | .process call batch => (b.process s call batch).map Processed.stage
  | .stop => b.stop s

/-- The stage after some calls, one after the other. -/
def visits (b : Behavior σ) (a : Attempt σ) (vs : List Visit) : Attempt σ :=
  vs.foldl (fun a v => a.bind fun s => b.visit s v) a

@[simp] theorem visits_one (b : Behavior σ) (s : σ) (v : Visit) :
    b.visits (.returned s) [v] = b.visit s v := rfl

theorem visits_append (b : Behavior σ) (a : Attempt σ) (vs ws : List Visit) :
    b.visits a (vs ++ ws) = b.visits (b.visits a vs) ws := List.foldl_append

end Behavior

namespace Pipeline

variable {σ : Type}

/-! ## One step of a worker -/

namespace Phase

theorem length_exit (p : Phase) (i : Nat) (name : String) :
    (p.exit i name).length = if p.isGone then 1 else 0 := by
  cases p <;> rfl

theorem of_mem_exit {p : Phase} {i : Nat} {name : String} {e : Exit} (h : e ∈ p.exit i name) :
    e.stageIndex = i ∧ e.name = name ∧ p = .gone e.reason := by
  cases p with
  | gone reason =>
    obtain rfl := List.mem_singleton.mp h
    exact ⟨rfl, rfl, rfl⟩
  | _ => cases h

theorem exists_panicked_exit_iff {p : Phase} {i : Nat} {name : String} :
    (∃ e ∈ p.exit i name, e.reason = .panicked) ↔ p = .gone .panicked := by
  constructor
  · rintro ⟨e, he, hreason⟩
    rw [← hreason]
    exact (of_mem_exit he).2.2
  · rintro rfl
    exact ⟨⟨i, name, .panicked⟩, List.mem_singleton_self _, rfl⟩

end Phase

namespace Worker

/-- The call that a worker makes in its next step. -/
def visit? (w : Worker σ) (around : Surroundings) : Option Visit :=
  match w.phase with
  | .starting => some .start
  | .calling batch _ => some (.process ⟨w.iteration, around.index, around.stopRequested⟩ batch)
  | .leaving _ => some .stop
  | _ => none

/-- What has become of the stage. -/
def fate (w : Worker σ) : Attempt σ :=
  match w.phase with
  | .gone .panicked => .panicked
  | _ => .returned w.stage

theorem fate_of_ne {w : Worker σ} (h : w.phase ≠ .gone .panicked) : w.fate = .returned w.stage := by
  unfold fate
  split
  · contradiction
  · rfl

theorem fate_of_panicked {w : Worker σ} (h : w.phase = .gone .panicked) : w.fate = .panicked := by
  rw [fate, h]

theorem fate_eq_panicked_iff {w : Worker σ} : w.fate = .panicked ↔ w.phase = .gone .panicked := by
  refine ⟨fun h => ?_, fate_of_panicked⟩
  by_contra hne
  rw [fate_of_ne hne] at h
  cases h

section Step

variable {b : Behavior σ} {w : Worker σ} {around : Surroundings} {m : Move σ}

/-- A step without a call leaves the stage as it is, and the worker neither breaks off nor leaves
for that reason. -/
theorem fate_of_still {phase : Phase} (hstage : m.worker = { w with phase })
    (hphase : ∀ reason, phase ≠ .gone reason ∧ phase ≠ .leaving .panicked)
    (hvisit : w.visit? around = none) :
    m.worker.fate = b.visits (.returned w.stage) (w.visit? around).toList ∧
      m.worker.phase ≠ .leaving .panicked := by
  rw [hvisit, hstage]
  exact ⟨fate_of_ne (hphase .panicked).1, (hphase .panicked).2⟩

theorem afterCall_ne (stopRequested again : Bool) (left : List Frame) (result : StageResult)
    (reason : ExitReason) : afterCall stopRequested left again result ≠ .gone reason ∧
      afterCall stopRequested left again result ≠ .leaving .panicked := by
  cases result <;> cases again <;> cases stopRequested <;> simp [afterCall]

/-- A step makes of the stage what the call makes of it that belongs to the step. -/
theorem step_fate (hphase : w.phase ≠ .leaving .panicked) (hm : w.step b around = some m) :
    m.worker.fate = b.visits (.returned w.stage) (w.visit? around).toList ∧
      m.worker.phase ≠ .leaving .panicked := by
  cases hw : w.phase with
  | spawned =>
    simp only [step, hw, Option.some.injEq] at hm
    subst hm
    exact fate_of_still rfl (by simp) (by simp [visit?, hw])
  | checking | starved =>
    simp only [step, hw, Option.some.injEq] at hm
    subst hm
    refine fate_of_still rfl (fun reason => ?_) (by simp [visit?, hw])
    split <;> simp
  | starting =>
    simp only [step, hw] at hm
    simp only [visit?, hw, Option.toList_some, Behavior.visits_one, Behavior.visit]
    split at hm
    · cases hm
    · rename_i hstart
      cases hm
      rw [hstart]
      exact ⟨rfl, by simp [still]⟩
    · rename_i result stage hstart
      cases hm
      rw [hstart]
      refine ⟨fate_of_ne ?_, ?_⟩ <;> simp only [still] <;> split <;> simp
  | fetching =>
    simp only [step, hw, Option.some.injEq] at hm
    subst hm
    have hvisit : w.visit? around = none := by simp [visit?, hw]
    obtain ⟨-, ⟨batch, hworker⟩ | hworker⟩ := fetch_cases w around
    · exact fate_of_still hworker (by simp) hvisit
    · exact fate_of_still hworker (by simp) hvisit
  | calling batch again =>
    simp only [visit?, hw, Option.toList_some, Behavior.visits_one, Behavior.visit]
    rcases call_cases hw hm with ⟨hpanic, rfl⟩ | ⟨p, hp, hworker, -⟩
    · rw [hpanic]
      exact ⟨rfl, by simp [still]⟩
    · rw [hp, hworker]
      exact ⟨fate_of_ne (by simp), by simp⟩
  | offering left again result pending =>
    have hvisit : w.visit? around = none := by simp [visit?, hw]
    cases pending with
    | nil =>
      simp only [step, hw, Option.some.injEq] at hm
      subst hm
      exact fate_of_still rfl (afterCall_ne _ _ _ _) hvisit
    | cons f pending =>
      simp only [step, hw] at hm
      obtain ⟨-, rest, -, hworker⟩ := offer_worker hm
      exact fate_of_still hworker (by simp) hvisit
  | leaving reason =>
    have hreason : reason ≠ .panicked := by
      rintro rfl
      exact hphase hw
    simp only [step, hw] at hm
    simp only [visit?, hw, Option.toList_some, Behavior.visits_one, Behavior.visit]
    split at hm
    · cases hm
    · rename_i hstop
      cases hm
      rw [hstop]
      exact ⟨rfl, by simp [still]⟩
    · rename_i stage hstop
      cases hm
      rw [hstop]
      exact ⟨fate_of_ne (by simpa [still] using hreason), by simp [still]⟩
  | gone reason =>
    rw [step_gone (by rw [hw]; rfl)] at hm
    cases hm

end Step

end Worker

/-! ## The place of a stage and its past -/

/-- What has happened to one stage. -/
structure Record (σ : Type) where
  /-- The stage as it was added. -/
  added : σ
  /-- The calls that workers have made to it, oldest first, over all runs. -/
  visits : List Visit := []
  /-- How often it has been given to a worker. -/
  starts : Nat := 0

namespace Record

/-- What the calls have made of the stage. -/
def fate (b : Behavior σ) (past : Record σ) : Attempt σ :=
  b.visits (.returned past.added) past.visits

def launched (past : Record σ) : Record σ := { past with starts := past.starts + 1 }

def visited (past : Record σ) (v? : Option Visit) : Record σ :=
  { past with visits := past.visits ++ v?.toList }

end Record

namespace Slot

def fate (s : Slot σ) : Attempt σ :=
  match s.tenancy with
  | .home stage => .returned stage
  | .atWork w => w.fate
  | .lost => .panicked

/-- How many exits the worker has still to report. -/
def pending (s : Slot σ) : Nat :=
  match s.tenancy with
  | .atWork w => if w.phase.isGone then 0 else 1
  | _ => 0

/-- What a stop request changes. -/
def mark (s : Slot σ) : Slot σ := if s.state = .running then { s with state := .stopping } else s

section Places

variable {s : Slot σ} {w : Worker σ}

theorem fate_of_work (hw : s.tenancy = .atWork w) : s.fate = w.fate := by
  simp only [fate, hw]

theorem pending_of_work (hw : s.tenancy = .atWork w) :
    s.pending = if w.phase.isGone then 0 else 1 := by
  simp only [pending, hw]

theorem pending_of_rest (hrest : s.worker? = none) : s.pending = 0 := by
  cases htenancy : s.tenancy with
  | atWork w => simp [worker?, htenancy] at hrest
  | _ => simp only [pending, htenancy]

theorem launch_of_home {stage : σ} (hhome : s.tenancy = .home stage) :
    s.launch = { s with tenancy := .atWork { stage }, made := 0, state := .idle } := by
  simp only [launch, hhome]

theorem mark_same (s : Slot σ) : s.mark.tenancy = s.tenancy ∧ s.mark.name = s.name := by
  unfold mark
  split <;> exact ⟨rfl, rfl⟩

theorem finish_same (hw : s.tenancy = .atWork w) (hgone : w.phase.isGone = true) :
    s.finish.name = s.name ∧ s.finish.fate = s.fate ∧ s.finish.worker? = none ∧
      s.finish.state = .stopped := by
  cases hphase : w.phase with
  | gone reason => cases reason <;> simp [finish, fate, Worker.fate, worker?, hw, hphase]
  | _ => simp [hphase, Phase.isGone] at hgone

end Places

/-- What the place of a stage shows of its past, and the exits that have been reported from it. -/
structure Tells (b : Behavior σ) (exits : List Exit) (s : Slot σ) (past : Record σ) : Prop where
  name : s.name = b.name past.added
  fate : s.fate = past.fate b
  reported : exits.length + s.pending = past.starts
  labels : ∀ e ∈ exits, e.name = s.name
  panics : (∃ e ∈ exits, e.reason = .panicked) ↔ s.fate = .panicked
  launched : ∀ w, s.tenancy = .atWork w → 0 < past.starts ∧ w.phase ≠ .leaving .panicked
  state : s.worker? = none → s.state = if past.starts = 0 then .idle else .stopped

section Tells

variable {b : Behavior σ} {exits : List Exit} {s : Slot σ} {past : Record σ} {w : Worker σ}

theorem new_tells (b : Behavior σ) (stage : σ) (options : Queue.Options) :
    (new b stage options).Tells b [] { added := stage } where
  name := rfl
  fate := rfl
  reported := rfl
  labels := by simp
  panics := by simp [Slot.fate, new]
  launched := by simp [new]
  state := fun _ => rfl

theorem Tells.launch (h : s.Tells b exits past) {stage : σ} (hhome : s.tenancy = .home stage) :
    s.launch.Tells b exits past.launched := by
  have hlaunch := launch_of_home hhome
  have hwork : s.launch.tenancy = .atWork { stage } := by rw [hlaunch]
  have hrest : s.worker? = none := by simp [worker?, hhome]
  have hname : s.launch.name = s.name := by rw [hlaunch]
  have hfate : s.launch.fate = s.fate := by
    rw [fate_of_work hwork]
    simp only [Slot.fate, hhome, Worker.fate]
  refine ⟨hname.trans h.name, hfate.trans h.fate, ?_, hname ▸ h.labels, hfate ▸ h.panics, ?_, ?_⟩
  · rw [pending_of_work hwork, Record.launched, ← h.reported, pending_of_rest hrest]
    rfl
  · intro x hx
    obtain rfl : { stage } = x := by simpa [hwork] using hx
    exact ⟨Nat.succ_pos _, by simp⟩
  · intro hnone
    simp [worker?, hwork] at hnone

theorem Tells.finish (h : s.Tells b exits past) (hw : s.tenancy = .atWork w)
    (hgone : w.phase.isGone = true) : s.finish.Tells b exits past := by
  obtain ⟨hname, hfate, hrest, hstate⟩ := finish_same hw hgone
  refine ⟨hname.trans h.name, hfate.trans h.fate, ?_, hname ▸ h.labels, hfate ▸ h.panics, ?_, ?_⟩
  · rw [pending_of_rest hrest, ← h.reported, pending_of_work hw, if_pos hgone]
  · intro x hx
    simp [worker?, hx] at hrest
  · intro _
    have hpos := (h.launched w hw).1
    rw [if_neg (by omega), hstate]

theorem Tells.mark (h : s.Tells b exits past) (hw : s.tenancy = .atWork w) :
    s.mark.Tells b exits past := by
  obtain ⟨htenancy, hname⟩ := mark_same s
  have hwork : s.mark.tenancy = .atWork w := htenancy.trans hw
  have hfate : s.mark.fate = s.fate := by rw [fate_of_work hwork, fate_of_work hw]
  refine ⟨hname.trans h.name, hfate.trans h.fate, ?_, hname ▸ h.labels, hfate ▸ h.panics, ?_, ?_⟩
  · rw [← h.reported, pending_of_work hwork, pending_of_work hw]
  · intro x hx
    exact h.launched x (htenancy ▸ hx)
  · intro hnone
    simp [worker?, hwork] at hnone

/-- A worker that makes a step has not gone, and reports an exit if it goes in this step. -/
theorem Tells.work (h : s.Tells b exits past) (hw : s.tenancy = .atWork w)
    {around : Surroundings} {m : Move σ} (hm : w.step b around = some m) (i : Nat) :
    (Runtime.slotAfter s m).Tells b (exits ++ m.worker.phase.exit i s.name)
      (past.visited (w.visit? around)) := by
  obtain ⟨hpos, hphase⟩ := h.launched w hw
  obtain ⟨hfate, hleaving⟩ := Worker.step_fate hphase hm
  have hgone : w.phase.isGone = false := by
    by_contra hgone
    rw [step_gone (by simpa using hgone)] at hm
    cases hm
  have hbefore : s.fate = .returned w.stage := by
    rw [fate_of_work hw]
    refine Worker.fate_of_ne fun hpanic => ?_
    rw [hpanic] at hgone
    cases hgone
  have hwork : (Runtime.slotAfter s m).tenancy = .atWork m.worker := rfl
  refine ⟨h.name, ?_, ?_, ?_, ?_, ?_, ?_⟩
  · rw [fate_of_work hwork, hfate, ← hbefore, h.fate]
    exact (Behavior.visits_append _ _ _ _).symm
  · have hreported := h.reported
    rw [pending_of_work hw, hgone, if_neg Bool.false_ne_true] at hreported
    rw [pending_of_work hwork, List.length_append, Phase.length_exit, Record.visited, ← hreported]
    split <;> rfl
  · intro e he
    rcases List.mem_append.mp he with he | he
    · exact h.labels e he
    · exact (Phase.of_mem_exit he).2.1
  · have hnone : ¬∃ e ∈ exits, e.reason = .panicked := by
      rw [h.panics, hbefore]
      simp
    rw [fate_of_work hwork, Worker.fate_eq_panicked_iff, ← Phase.exists_panicked_exit_iff]
    simp only [List.mem_append, or_and_right, exists_or]
    exact or_iff_right hnone
  · intro x hx
    obtain rfl : m.worker = x := by simpa [hwork] using hx
    exact ⟨hpos, hleaving⟩
  · intro hnone
    simp [worker?, hwork] at hnone

end Tells

end Slot

end Pipeline
end Oscilloscope
