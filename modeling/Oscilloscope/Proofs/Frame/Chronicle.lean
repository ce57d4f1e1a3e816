import Oscilloscope.Proofs.Frame.Ledger

/-!
# Oscilloscope.Proofs.Frame.Chronicle

What is read from a frame, wherever it has been.

A `Chronicle` is a custody in which every frame carries its past: the samples it was created with
and the changes made to them since. Frame and past are moved as one.

* `Chronicle.Shows`: without the pasts, a chronicle is the custody that it is about
  (`step_shows`).
* `Told.Faithful`: a frame reads as it was created and then changed, and nothing has been changed
  while it was borrowed. Every operation keeps this (`step_faithful`).
* `Custody.run_releases_once`: what is read, with the accounts of all loans.
-/

namespace Oscilloscope

namespace Queue.Bounded

variable {α β : Type}

/-- The same queue of other items. -/
def map (f : α → β) (q : Bounded α) : Bounded β :=
  { capacity := q.capacity, policy := q.policy, items := q.items.map f
    isShutdown := q.isShutdown, accepted := q.accepted, dropped := q.dropped }

theorem isFull_map (f : α → β) (q : Bounded α) : (q.map f).isFull = q.isFull := by
  rw [isFull, isFull, length, length, map, List.length_map]

theorem offer_map (f : α → β) (q : Bounded α) (a : α) :
    (q.map f).offer (f a) =
      ⟨(q.offer a).answer, (q.offer a).queue.map f, (q.offer a).discarded.map f⟩ := by
  have hpolicy : (q.map f).policy = q.policy := rfl
  have hshut : (q.map f).isShutdown = q.isShutdown := rfl
  unfold offer
  rw [isFull_map, hpolicy, hshut]
  by_cases hs : q.policy = .block ∧ q.isShutdown = true
  · rw [if_pos hs, if_pos hs]
    rfl
  · rw [if_neg hs, if_neg hs]
    by_cases hfull : q.isFull = true
    · rw [if_pos hfull, if_pos hfull]
      cases q.policy with
      | dropLatest => rfl
      | dropOldest => simp [map, append, List.map_take, List.map_tail]
      | block => rfl
    · rw [if_neg hfull, if_neg hfull]
      simp [map, append]

/-- What is in a queue after an offer was there before, or has been offered. -/
theorem mem_offer {q : Bounded α} {a b : α} (hmem : b ∈ (q.offer a).queue.items) :
    b ∈ q.items ∨ b = a := by
  rcases q.offer_cases a with ⟨-, -, heq⟩ | ⟨-, heq⟩ | ⟨-, -, heq⟩ | ⟨-, -, heq⟩ | ⟨-, -, heq⟩
  · rw [heq] at hmem
    exact .inl hmem
  · rw [heq, append_items, List.mem_append, List.mem_singleton] at hmem
    exact hmem
  · rw [heq] at hmem
    exact .inl hmem
  · rw [heq] at hmem
    rcases List.mem_append.mp hmem with hold | hnew
    · exact .inl (List.mem_of_mem_tail hold)
    · exact .inr (List.mem_singleton.mp hnew)
  · rw [heq] at hmem
    exact .inl hmem

theorem dequeue_map (f : α → β) (q : Bounded α) :
    (q.map f).dequeue = (q.dequeue.1.map f, q.dequeue.2.map f) := by
  rw [dequeue_eq, dequeue_eq]
  simp only [map, List.head?_map, List.map_tail]

theorem dequeueLatest_map (f : α → β) (q : Bounded α) :
    (q.map f).dequeueLatest =
      (q.dequeueLatest.1.map f, q.dequeueLatest.2.1.map f, q.dequeueLatest.2.2.map f) := by
  simp only [dequeueLatest, map, List.getLast?_map, List.map_dropLast, List.map_nil]

end Queue.Bounded

/-- A frame with the samples it was created with and the changes made since. -/
structure Told where
  frame : Frame
  created : List Sample
  changes : List (Nat × Sample) := []

namespace Told

/-- What the past says is to be read. -/
def samples (t : Told) : List Sample :=
  t.changes.foldl (fun samples change => samples.set change.1 change.2) t.created

structure Faithful (t : Told) : Prop where
  reads : t.frame.samples = t.samples
  unchanged : t.frame.isBorrowed = true → t.changes = []

/-- The same frame with its samples copied. -/
def materialize (t : Told) : Told := { t with frame := t.frame.materialize }

/-- A frame that has just been made. -/
theorem faithful_new {frame : Frame} {created : List Sample} (h : frame.samples = created) :
    Faithful { frame, created } :=
  ⟨h, fun _ => rfl⟩

theorem Faithful.materialize {t : Told} (h : t.Faithful) : t.materialize.Faithful :=
  ⟨h.reads, fun hborrowed => absurd hborrowed Bool.false_ne_true⟩

theorem Faithful.write {t : Told} (h : t.Faithful) {index : Nat} {sample : Sample} {g : Frame}
    (hok : t.frame.modify? index sample = .ok (some g)) :
    Faithful { t with frame := g, changes := t.changes ++ [(index, sample)] } := by
  obtain ⟨-, howned, hsamples⟩ := Frame.modify?_ok hok
  constructor
  · rw [Told.samples, List.foldl_append, hsamples, h.reads]
    rfl
  · intro hborrowed
    rw [howned] at hborrowed
    cases hborrowed

end Told

/-- A custody in which every frame carries its past. -/
structure Chronicle where
  named : List (String × Told) := []
  view : List Told := []
  written : List Told := []
  queue : Queue.Bounded Told := Queue.Bounded.new 1 .dropOldest
  lent : Nat := 0

namespace Chronicle

def find? (h : Chronicle) (id : String) : Option Told := h.named.lookup id

def without (h : Chronicle) (id : String) : Chronicle :=
  { h with named := h.named.filter (·.1 != id) }

def put (h : Chronicle) (id : String) (t : Told) : Chronicle :=
  { h with named := (id, t) :: (h.without id).named }

/-- Put a newly made frame into a variable, unless it could not be made from `created`. -/
def putMade (h : Chronicle) (id : String) (created : List Sample) :
    Except FrameError Frame → Chronicle
  | .ok frame => h.put id { frame, created }
  | .error _ => h

def putAll (h : Chronicle) (entries : List (String × Told)) : Chronicle :=
  entries.foldl (fun h e => h.put e.1 e.2) h

def onFrame (h : Chronicle) (id : String) (k : Told → Chronicle) : Chronicle :=
  match h.find? id with
  | some t => k t
  | none => h

/-- What happens to the frames, and what is added to their pasts. -/
def step (h : Chronicle) : Custody.Op → Chronicle
  | .zeros target channels samplesPerChannel =>
    h.put target { frame := .zeros channels samplesPerChannel
                   created := List.replicate (channels.toNat * samplesPerChannel.toNat) 0 }
  | .ofSamples target channels samplesPerChannel samples =>
    h.putMade target samples (Frame.ofSamples? channels samplesPerChannel samples)
  | .ofBuffer target buffer rate firstIndex =>
    h.putMade target buffer.samples (Frame.ofBuffer? buffer rate firstIndex)
  | .borrow target channels samplesPerChannel memory =>
    let cell (i : Nat) : Sample := memory.getD i 0
    { h with lent := h.lent + 1 }.put target
      { frame := .ofLoan channels samplesPerChannel h.lent cell
        created := (List.range (channels.toNat * samplesPerChannel.toNat)).map cell }
  | .describe id sequence timestamp rate firstIndex flags =>
    h.onFrame id fun t =>
      h.put id { t with frame := { t.frame with sequence, timestamp, rate, firstIndex, flags } }
  | .write id index sample =>
    h.onFrame id fun t =>
      match t.frame.modify? index sample with
      | .ok (some frame) => h.put id { t with frame, changes := t.changes ++ [(index, sample)] }
      | _ => h
  | .materialize id => h.onFrame id fun t => h.put id t.materialize
  | .copy id target =>
    h.onFrame id fun t => if target = id then h else h.put target t.materialize
  | .move id target => h.onFrame id fun t => (h.without id).put target t
  | .drop id => h.onFrame id fun _ => h.without id
  | .offer id => h.onFrame id fun t => { h.without id with view := h.view ++ [t] }
  | .take target =>
    match h.view with
    | [] => h
    | t :: rest => { h with view := rest }.put target t
  | .push id =>
    h.onFrame id fun t => { h.without id with written := h.written ++ [t.materialize] }
  | .collect targets => { h with written := [] }.putAll (targets.zip h.written)
  | .enqueue id =>
    h.onFrame id fun t =>
      match (h.queue.offer t).answer with
      | .wait => h
      | _ => { h.without id with queue := (h.queue.offer t).queue }
  | .dequeue target =>
    match h.queue.dequeue with
    | (none, _) => h
    | (some t, queue) => { h with queue }.put target t
  | .dequeueLatest target =>
    match h.queue.dequeueLatest with
    | (none, _, _) => h
    | (some t, queue, _) => { h with queue }.put target t
  | .shutdown => { h with queue := h.queue.shutdown }
  | .renew capacity policy => { h with queue := .new capacity policy }

def run (h : Chronicle) (ops : List Custody.Op) : Chronicle := ops.foldl step h

/-- All frames with their pasts. -/
def all (h : Chronicle) : List Told :=
  h.named.map Prod.snd ++ h.view ++ h.written ++ h.queue.items

/-! ## Without the pasts -/

/-- Without the pasts, the chronicle is the custody. -/
structure Shows (h : Chronicle) (c : Custody) : Prop where
  named : c.named = h.named.map fun e => (e.1, e.2.frame)
  view : c.view = h.view.map Told.frame
  written : c.written = h.written.map Told.frame
  queue : c.queue = h.queue.map Told.frame
  lent : c.lent = h.lent

section Shows

variable {h : Chronicle} {c : Custody}

theorem Shows.find (hs : h.Shows c) (id : String) :
    c.find? id = (h.find? id).map Told.frame := by
  rw [Custody.find?, hs.named, find?]
  induction h.named with
  | nil => rfl
  | cons e rest ih =>
    rw [List.map_cons, List.lookup_cons, List.lookup_cons, ih]
    cases id == e.1 with
    | true => rfl
    | false => rfl

theorem Shows.without (hs : h.Shows c) (id : String) : (h.without id).Shows (c.without id) := by
  refine ⟨?_, hs.view, hs.written, hs.queue, hs.lent⟩
  show c.named.filter (·.1 != id) = (h.named.filter (·.1 != id)).map _
  rw [hs.named, List.filter_map]
  rfl

theorem Shows.release (hs : h.Shows c) (frames : List Frame) : h.Shows (c.release frames) :=
  ⟨hs.named, hs.view, hs.written, hs.queue, hs.lent⟩

theorem Shows.put (hs : h.Shows c) (id : String) (t : Told) :
    (h.put id t).Shows (c.put id t.frame) := by
  refine ⟨?_, hs.view, hs.written, hs.queue, hs.lent⟩
  show (id, t.frame) :: (c.without id).named = _
  rw [(hs.without id).named]
  rfl

theorem Shows.replace (hs : h.Shows c) (id : String) (t : Told) :
    (h.put id t).Shows (c.replace id t.frame) := by
  refine ⟨?_, hs.view, hs.written, hs.queue, hs.lent⟩
  show (id, t.frame) :: (c.without id).named = _
  rw [(hs.without id).named]
  rfl

theorem Shows.putMade (hs : h.Shows c) (id : String) (created : List Sample)
    (made : Except FrameError Frame) :
    (h.putMade id created made).Shows (c.putMade id made).2 := by
  cases made with
  | ok f => exact hs.put id { frame := f, created }
  | error e => exact hs

theorem Shows.putAll (hs : h.Shows c) (entries : List (String × Told)) :
    (h.putAll entries).Shows (c.putAll (entries.map fun e => (e.1, e.2.frame))) := by
  induction entries generalizing h c with
  | nil => exact hs
  | cons e rest ih => exact ih (hs.put e.1 e.2)

theorem Shows.onFrame (hs : h.Shows c) {id : String} {k : Told → Chronicle}
    {k' : Frame → Custody.Reply × Custody} (hk : ∀ t, (k t).Shows (k' t.frame).2) :
    (h.onFrame id k).Shows (c.onFrame id k').2 := by
  unfold Chronicle.onFrame Custody.onFrame
  rw [hs.find id]
  cases h.find? id with
  | some t => exact hk t
  | none => exact hs

theorem step_shows (hs : h.Shows c) (op : Custody.Op) : (h.step op).Shows (c.step op).2 := by
  cases op with
  | zeros target channels samplesPerChannel => exact hs.put target _
  | ofSamples target channels samplesPerChannel samples => exact hs.putMade target _ _
  | ofBuffer target buffer rate firstIndex => exact hs.putMade target _ _
  | borrow target channels samplesPerChannel memory =>
    have hlent : ({ h with lent := h.lent + 1 } : Chronicle).Shows
        { c with lent := c.lent + 1 } :=
      ⟨hs.named, hs.view, hs.written, hs.queue, congrArg (· + 1) hs.lent⟩
    have hput := hlent.put target
      { frame := .ofLoan channels samplesPerChannel h.lent fun i => memory.getD i 0
        created := (List.range (channels.toNat * samplesPerChannel.toNat)).map
          fun i => memory.getD i 0 }
    -- The loan has the same number on both sides.
    unfold Custody.step
    rw [hs.lent] at hput ⊢
    exact hput
  | describe id sequence timestamp rate firstIndex flags =>
    exact hs.onFrame fun t => hs.replace id _
  | write id index sample =>
    refine hs.onFrame fun t => ?_
    cases t.frame.modify? index sample with
    | error e => exact hs
    | ok changed =>
      cases changed with
      | none => exact hs
      | some g => exact hs.replace id _
  | materialize id => exact hs.onFrame fun t => (hs.replace id t.materialize).release _
  | copy id target =>
    refine hs.onFrame fun t => ?_
    by_cases heq : target = id
    · rw [if_pos heq, if_pos heq]
      exact hs
    · rw [if_neg heq, if_neg heq]
      exact hs.put target t.materialize
  | move id target => exact hs.onFrame fun t => (hs.without id).put target t
  | drop id => exact hs.onFrame fun t => (hs.without id).release _
  | offer id =>
    refine hs.onFrame fun t => ?_
    have hw := hs.without id
    refine ⟨hw.named, ?_, hw.written, hw.queue, hw.lent⟩
    show c.view ++ [t.frame] = (h.view ++ [t]).map Told.frame
    rw [hs.view, List.map_append]
    rfl
  | take target =>
    unfold Custody.step Chronicle.step
    rw [hs.view]
    cases hview : h.view with
    | nil => exact hs
    | cons t rest =>
      have hrest : ({ h with view := rest } : Chronicle).Shows
          { c with view := rest.map Told.frame } :=
        ⟨hs.named, rfl, hs.written, hs.queue, hs.lent⟩
      exact hrest.put target t
  | push id =>
    refine hs.onFrame fun t => ?_
    have hw := hs.without id
    have hpushed : ({ h.without id with written := h.written ++ [t.materialize] } :
        Chronicle).Shows { c.without id with written := c.written ++ [t.frame.materialize] } := by
      refine ⟨hw.named, hw.view, ?_, hw.queue, hw.lent⟩
      rw [hs.written, List.map_append]
      rfl
    exact hpushed.release _
  | collect targets =>
    have hempty : ({ h with written := [] } : Chronicle).Shows
        (({ c with written := [] } : Custody).release (c.written.drop targets.length)) :=
      ⟨hs.named, hs.view, rfl, hs.queue, hs.lent⟩
    have hentries : targets.zip c.written =
        (targets.zip h.written).map fun e => (e.1, e.2.frame) := by
      rw [hs.written, List.zip_map_right]
      rfl
    show (Chronicle.putAll _ _).Shows (Custody.putAll _ (targets.zip c.written))
    rw [hentries]
    exact hempty.putAll _
  | enqueue id =>
    refine hs.onFrame fun t => ?_
    rw [hs.queue, Queue.Bounded.offer_map]
    have hw := hs.without id
    have hqueued : ({ h.without id with queue := (h.queue.offer t).queue } : Chronicle).Shows
        { c.without id with queue := (h.queue.offer t).queue.map Told.frame } :=
      ⟨hw.named, hw.view, hw.written, rfl, hw.lent⟩
    cases (h.queue.offer t).answer with
    | wait => exact hs
    | _ => exact hqueued.release _
  | dequeue target =>
    simp only [Custody.step, Chronicle.step, hs.queue, Queue.Bounded.dequeue_map]
    obtain ⟨taken, queue⟩ := h.queue.dequeue
    cases taken with
    | none => exact hs
    | some t =>
      have hrest : ({ h with queue } : Chronicle).Shows
          { c with queue := queue.map Told.frame } :=
        ⟨hs.named, hs.view, hs.written, rfl, hs.lent⟩
      exact hrest.put target t
  | dequeueLatest target =>
    simp only [Custody.step, Chronicle.step, hs.queue, Queue.Bounded.dequeueLatest_map]
    obtain ⟨taken, queue, stale⟩ := h.queue.dequeueLatest
    cases taken with
    | none => exact hs
    | some t =>
      have hrest : ({ h with queue } : Chronicle).Shows
          { c with queue := queue.map Told.frame } :=
        ⟨hs.named, hs.view, hs.written, rfl, hs.lent⟩
      exact (hrest.release _).put target t
  | shutdown =>
    exact ⟨hs.named, hs.view, hs.written, congrArg Queue.Bounded.shutdown hs.queue, hs.lent⟩
  | renew capacity policy => exact ⟨hs.named, hs.view, hs.written, rfl, hs.lent⟩

end Shows

/-! ## What is read -/

/-- Every frame reads as its past says. -/
structure Faithful (h : Chronicle) : Prop where
  named : ∀ e ∈ h.named, e.2.Faithful
  view : ∀ t ∈ h.view, t.Faithful
  written : ∀ t ∈ h.written, t.Faithful
  queue : ∀ t ∈ h.queue.items, t.Faithful

section Faithful

variable {h : Chronicle} {id : String}

theorem Faithful.find (hf : h.Faithful) {t : Told} (ht : h.find? id = some t) : t.Faithful := by
  obtain ⟨before, after, heq, -⟩ := List.lookup_eq_some_iff.mp ht
  exact hf.named (id, t) (heq ▸ List.mem_append_right _ List.mem_cons_self)

theorem Faithful.without (hf : h.Faithful) (id : String) : (h.without id).Faithful :=
  { hf with named := fun e hmem => hf.named e (List.mem_filter.mp hmem).1 }

theorem Faithful.put (hf : h.Faithful) (id : String) {t : Told} (ht : t.Faithful) :
    (h.put id t).Faithful :=
  { hf with named := List.forall_mem_cons.mpr ⟨ht, (hf.without id).named⟩ }

theorem Faithful.putMade (hf : h.Faithful) (id : String) {created : List Sample}
    {made : Except FrameError Frame} (hmade : ∀ f, made = .ok f → f.samples = created) :
    (h.putMade id created made).Faithful := by
  cases made with
  | ok f => exact hf.put id (Told.faithful_new (hmade f rfl))
  | error e => exact hf

theorem Faithful.putAll (hf : h.Faithful) {entries : List (String × Told)}
    (hentries : ∀ e ∈ entries, e.2.Faithful) : (h.putAll entries).Faithful := by
  induction entries generalizing h with
  | nil => exact hf
  | cons e rest ih =>
    rw [List.forall_mem_cons] at hentries
    exact ih (hf.put e.1 hentries.1) hentries.2

theorem Faithful.onFrame (hf : h.Faithful) {k : Told → Chronicle}
    (hk : ∀ t, t.Faithful → (k t).Faithful) : (h.onFrame id k).Faithful := by
  unfold Chronicle.onFrame
  cases ht : h.find? id with
  | some t => exact hk t (hf.find ht)
  | none => exact hf

theorem step_faithful (hf : h.Faithful) (op : Custody.Op) : (h.step op).Faithful := by
  cases op with
  | zeros target channels samplesPerChannel => exact hf.put target (Told.faithful_new rfl)
  | ofSamples target channels samplesPerChannel samples =>
    exact hf.putMade target fun f hok =>
      congrArg Storage.samples (Frame.storage_of_ofSamples? hok)
  | ofBuffer target buffer rate firstIndex =>
    exact hf.putMade target fun f hok =>
      congrArg Storage.samples (Frame.storage_of_ofBuffer? hok)
  | borrow target channels samplesPerChannel memory =>
    have hlent : ({ h with lent := h.lent + 1 } : Chronicle).Faithful := { hf with }
    exact hlent.put target (Told.faithful_new rfl)
  | describe id sequence timestamp rate firstIndex flags =>
    exact hf.onFrame fun t ht => hf.put id ⟨ht.reads, ht.unchanged⟩
  | write id index sample =>
    refine hf.onFrame fun t ht => ?_
    split
    · rename_i g hok
      exact hf.put id (ht.write hok)
    · exact hf
  | materialize id => exact hf.onFrame fun t ht => hf.put id ht.materialize
  | copy id target =>
    refine hf.onFrame fun t ht => ?_
    split
    · exact hf
    · exact hf.put target ht.materialize
  | move id target => exact hf.onFrame fun t ht => (hf.without id).put target ht
  | drop id => exact hf.onFrame fun _ _ => hf.without id
  | offer id =>
    refine hf.onFrame fun t ht => { hf.without id with view := ?_ }
    exact List.forall_mem_append.mpr ⟨hf.view, List.forall_mem_singleton.mpr ht⟩
  | take target =>
    unfold step
    have hall := hf.view
    cases hview : h.view with
    | nil => exact hf
    | cons t rest =>
      rw [hview, List.forall_mem_cons] at hall
      have hrest : ({ h with view := rest } : Chronicle).Faithful := { hf with view := hall.2 }
      exact hrest.put target hall.1
  | push id =>
    refine hf.onFrame fun t ht => { hf.without id with written := ?_ }
    exact List.forall_mem_append.mpr ⟨hf.written, List.forall_mem_singleton.mpr ht.materialize⟩
  | collect targets =>
    have hempty : ({ h with written := [] } : Chronicle).Faithful :=
      { hf with written := fun _ hmem => absurd hmem List.not_mem_nil }
    exact hempty.putAll fun e hmem => hf.written e.2 (List.of_mem_zip hmem).2
  | enqueue id =>
    refine hf.onFrame fun t ht => ?_
    split
    · exact hf
    · refine { hf.without id with queue := ?_ }
      intro u hu
      rcases Queue.Bounded.mem_offer hu with hold | rfl
      · exact hf.queue u hold
      · exact ht
  | dequeue target =>
    unfold step
    rw [Queue.Bounded.dequeue_eq]
    have hall := hf.queue
    cases hitems : h.queue.items with
    | nil => exact hf
    | cons t rest =>
      rw [hitems, List.forall_mem_cons] at hall
      have hrest : ({ h with queue := { h.queue with items := rest } } : Chronicle).Faithful :=
        { hf with queue := hall.2 }
      exact hrest.put target hall.1
  | dequeueLatest target =>
    unfold step
    rw [Queue.Bounded.dequeueLatest]
    cases hlast : h.queue.items.getLast? with
    | none => exact hf
    | some t =>
      have hempty : ({ h with queue := { h.queue with items := [] } } : Chronicle).Faithful :=
        { hf with queue := fun _ hmem => absurd hmem List.not_mem_nil }
      exact hempty.put target (hf.queue t (List.mem_of_getLast? hlast))
  | shutdown => exact { hf with }
  | renew capacity policy => exact { hf with queue := fun _ hmem => absurd hmem List.not_mem_nil }

end Faithful

theorem run_shows {h : Chronicle} {c : Custody} (hs : h.Shows c) (ops : List Custody.Op) :
    (h.run ops).Shows (c.run ops) := by
  induction ops generalizing h c with
  | nil => exact hs
  | cons op ops ih => exact ih (step_shows hs op)

theorem run_faithful {h : Chronicle} (hf : h.Faithful) (ops : List Custody.Op) :
    (h.run ops).Faithful := by
  induction ops generalizing h with
  | nil => exact hf
  | cons op ops ih => exact ih (step_faithful hf op)

theorem start_shows : Shows {} {} := ⟨rfl, rfl, rfl, rfl, rfl⟩

theorem start_faithful : Faithful {} where
  named := fun _ hmem => absurd hmem List.not_mem_nil
  view := fun _ hmem => absurd hmem List.not_mem_nil
  written := fun _ hmem => absurd hmem List.not_mem_nil
  queue := fun _ hmem => absurd hmem List.not_mem_nil

theorem Faithful.all {h : Chronicle} (hf : h.Faithful) : ∀ t ∈ h.all, t.Faithful := by
  unfold Chronicle.all
  simp only [List.forall_mem_append, List.forall_mem_map]
  exact ⟨⟨⟨hf.named, hf.view⟩, hf.written⟩, hf.queue⟩

end Chronicle

namespace Custody

theorem write_of_borrowed {c : Custody} {id : String} {f : Frame} (hf : c.find? id = some f)
    (hborrowed : f.isBorrowed = true) (index : Nat) (sample : Sample) :
    c.step (.write id index sample) = (.failed .borrowedMutation, c) := by
  simp only [step, onFrame, hf, Frame.modify?_of_borrowed hborrowed]

/-- Whatever is done with frames, lent memory is given back exactly once: not while a frame that
borrows it is anywhere, and by the time that all frames have ended. Until it is written to, a frame
reads as it was created. -/
theorem run_releases_once (ops : List Op) :
    let c := run {} ops
    let h := ({} : Chronicle).run ops
    c.released.length + c.frames.countP Frame.isBorrowed = ops.countP Op.borrows ∧
      c.released.Nodup ∧ (∀ f ∈ c.frames, ∀ loan ∈ f.loans, loan ∉ c.released) ∧
      c.close.released.Perm (List.range (ops.countP Op.borrows)) ∧
      (∀ f ∈ c.written, f.isBorrowed = false) ∧
      h.Shows c ∧ (∀ t ∈ h.all, t.frame.samples = t.samples ∧
        (t.frame.isBorrowed = true → t.changes = [])) ∧
      ∀ id f index sample, c.find? id = some f → f.isBorrowed = true →
        c.step (.write id index sample) = (.failed .borrowedMutation, c) := by
  intro c h
  have hsound : c.Sound := run_sound start_sound ops
  have hlent : c.lent = ops.countP Op.borrows := (lent_run start_sound ops).trans (Nat.zero_add _)
  have hperm := hsound.perm
  have hnodup : (c.released ++ c.held).Nodup := hperm.nodup_iff.mpr List.nodup_range
  rw [List.nodup_append] at hnodup
  obtain ⟨hreleased, -, hdisjoint⟩ := hnodup
  refine ⟨?_, hreleased, ?_, hlent ▸ hperm, hsound.owning,
    Chronicle.run_shows Chronicle.start_shows ops, ?_, ?_⟩
  · rw [← length_held, ← List.length_append, hperm.length_eq, List.length_range, hlent]
  · intro f hf loan hloan hback
    exact hdisjoint loan hback loan (List.mem_flatMap.mpr ⟨f, hf, hloan⟩) rfl
  · intro t ht
    have hfaithful := (Chronicle.run_faithful Chronicle.start_faithful ops).all t ht
    exact ⟨hfaithful.reads, hfaithful.unchanged⟩
  · intro id f index sample hf hborrowed
    exact write_of_borrowed hf hborrowed index sample

end Custody

end Oscilloscope
