import Oscilloscope.Frame.Custody
import Oscilloscope.Proofs.Frame.Channels
import Oscilloscope.Proofs.Queue.History

/-!
# Oscilloscope.Proofs.Frame.Ledger

Every loan is accounted for: it is either held by one frame or has been given back once.

* `Custody.tally`: how often a loan is held or has been given back. Each way of moving or ending a
  frame has one lemma about it.
* `Custody.Sound`: the tally of a loan that was made is one, that of any other is zero.
  `step_sound` preserves this, whatever the operation.
* `Custody.Sound.perm`: from this, the loans made are the loans given back and the loans held.
-/

namespace Oscilloscope

/-! ## Debts of frames -/

namespace Frame

@[simp] theorem loans_materialize (f : Frame) : f.materialize.loans = [] := rfl

theorem storage_of_ofSamples? {channels samplesPerChannel : UInt32} {samples : List Sample}
    {f : Frame} (hok : Frame.ofSamples? channels samplesPerChannel samples = .ok f) :
    f.storage = .owned samples := by
  obtain ⟨fits, rfl⟩ := fits_of_ofSamples? hok
  rfl

theorem storage_of_ofBuffer? {b : Buffer} {rate : Double} {firstIndex : UInt64} {f : Frame}
    (hok : Frame.ofBuffer? b rate firstIndex = .ok f) : f.storage = .owned b.samples := by
  unfold Frame.ofBuffer? at hok
  cases hmade : Frame.ofSamples? b.channels b.samplesPerChannel b.samples with
  | error e => rw [hmade] at hok; cases hok
  | ok g =>
    rw [hmade] at hok
    cases hok
    show g.storage = _
    exact storage_of_ofSamples? hmade

/-- Only an owned frame is changed, and it stays one. -/
theorem modify?_ok {f g : Frame} {i : Nat} {s : Sample} (hok : f.modify? i s = .ok (some g)) :
    f.isBorrowed = false ∧ g.isBorrowed = false ∧ g.samples = f.samples.set i s := by
  unfold modify? at hok
  split at hok
  · cases hok
  · rename_i samples hstorage
    split at hok
    · cases hok
      refine ⟨?_, rfl, ?_⟩
      · rw [isBorrowed, hstorage]
        rfl
      · show samples.set i s = f.storage.samples.set i s
        rw [hstorage]
        rfl
    · cases hok

theorem modify?_of_borrowed {f : Frame} (h : f.isBorrowed = true) (i : Nat) (s : Sample) :
    f.modify? i s = .error .borrowedMutation := by
  unfold modify?
  split
  · rfl
  · rename_i samples hstorage
    rw [isBorrowed, hstorage] at h
    cases h

theorem loans_of_not_borrowed {f : Frame} (h : f.isBorrowed = false) : f.loans = [] := by
  rw [isBorrowed] at h
  rw [loans]
  cases hstorage : f.storage with
  | owned samples => rfl
  | borrowed loan samples =>
    rw [hstorage] at h
    cases h

end Frame

namespace Custody

/-- How often `loan` is a debt of the frames. -/
def owed (frames : List Frame) (loan : Loan) : Nat := (frames.flatMap Frame.loans).count loan

section Owed

variable {loan : Loan}

@[simp] theorem owed_nil : owed [] loan = 0 := rfl

@[simp] theorem owed_cons (f : Frame) (frames : List Frame) :
    owed (f :: frames) loan = f.loans.count loan + owed frames loan := by
  rw [owed, List.flatMap_cons, List.count_append]
  rfl

theorem owed_entries_cons (id : String) (f : Frame) (entries : List (String × Frame)) :
    owed (((id, f) :: entries).map Prod.snd) loan =
      f.loans.count loan + owed (entries.map Prod.snd) loan :=
  owed_cons f _

@[simp] theorem owed_append (frames others : List Frame) :
    owed (frames ++ others) loan = owed frames loan + owed others loan := by
  rw [owed, List.flatMap_append, List.count_append]
  rfl

theorem owed_take_drop (n : Nat) (frames : List Frame) (loan : Loan) :
    owed (frames.take n) loan + owed (frames.drop n) loan = owed frames loan := by
  rw [← owed_append, List.take_append_drop]

theorem map_snd_zip (targets : List String) (frames : List Frame) :
    (targets.zip frames).map Prod.snd = frames.take targets.length := by
  induction targets generalizing frames with
  | nil => rfl
  | cons target targets ih =>
    cases frames with
    | nil => rfl
    | cons f frames =>
      rw [List.zip_cons_cons, List.map_cons, ih, List.length_cons, List.take_succ_cons]

/-- The variables without one of them, and the frame that was there. -/
theorem owed_filter {entries : List (String × Frame)} (hnames : (entries.map Prod.fst).Nodup)
    (id : String) :
    owed ((entries.filter (·.1 != id)).map Prod.snd) loan +
        owed (entries.lookup id).toList loan =
      owed (entries.map Prod.snd) loan := by
  induction entries with
  | nil => rfl
  | cons entry rest ih =>
    obtain ⟨name, f⟩ := entry
    rw [List.map_cons, List.nodup_cons] at hnames
    obtain ⟨hfresh, hrest⟩ := hnames
    by_cases heq : id = name
    · subst heq
      have hall : ∀ entry ∈ rest, (entry.1 != id) = true := by
        intro entry hmem
        rw [bne_iff_ne]
        rintro rfl
        exact hfresh (List.mem_map.mpr ⟨entry, hmem, rfl⟩)
      rw [List.filter_cons_of_neg (by simp), List.filter_eq_self.mpr hall, List.lookup_cons_self,
        List.map_cons, owed_cons, Option.toList_some, owed_cons, owed_nil, Nat.add_zero,
        Nat.add_comm]
    · have hkeep : ((name, f) :: rest).filter (·.1 != id) =
          (name, f) :: rest.filter (·.1 != id) :=
        List.filter_cons_of_pos (bne_iff_ne.mpr (Ne.symm heq))
      have hskip : (id == name) = false := beq_false_of_ne heq
      rw [hkeep, List.lookup_cons, hskip, List.map_cons, List.map_cons, owed_cons, owed_cons,
        ← ih hrest, Nat.add_assoc]

end Owed

/-! ## Moving and ending frames -/

/-- How often a loan is held or has been given back. -/
def tally (c : Custody) (loan : Loan) : Nat := c.released.count loan + owed c.frames loan

/-- No two variables have one name. -/
def Named (c : Custody) : Prop := (c.named.map Prod.fst).Nodup

section Moves

variable {c : Custody} (loan : Loan)

theorem tally_eq (c : Custody) (loan : Loan) :
    c.tally loan = c.released.count loan + (owed (c.named.map Prod.snd) loan +
      owed c.view loan + owed c.written loan + owed c.queue.items loan) := by
  rw [tally, frames, owed_append, owed_append, owed_append]

theorem named_without (h : c.Named) (id : String) : (c.without id).Named :=
  h.sublist (List.filter_sublist.map Prod.fst)

theorem named_cons_without (h : c.Named) (id : String) (f : Frame) :
    (((id, f) :: (c.without id).named).map Prod.fst).Nodup := by
  rw [List.map_cons, List.nodup_cons]
  refine ⟨?_, named_without h id⟩
  intro hmem
  obtain ⟨entry, hentry, heq⟩ := List.mem_map.mp hmem
  exact bne_iff_ne.mp (List.mem_filter.mp hentry).2 heq

theorem named_put (h : c.Named) (id : String) (f : Frame) : (c.put id f).Named :=
  named_cons_without h id f

theorem tally_release (c : Custody) (frames : List Frame) :
    (c.release frames).tally loan = c.tally loan + owed frames loan := by
  have hreleased : (c.release frames).released.count loan =
      c.released.count loan + owed frames loan := List.count_append
  have hframes : (c.release frames).frames = c.frames := rfl
  rw [tally, tally, hreleased, hframes]
  omega

theorem tally_named (c : Custody) (named : List (String × Frame)) :
    ({ c with named } : Custody).tally loan + owed (c.named.map Prod.snd) loan =
      c.tally loan + owed (named.map Prod.snd) loan := by
  rw [tally_eq, tally_eq]
  dsimp only
  omega

theorem tally_view (c : Custody) (view : List Frame) :
    ({ c with view } : Custody).tally loan + owed c.view loan =
      c.tally loan + owed view loan := by
  rw [tally_eq, tally_eq]
  dsimp only
  omega

theorem tally_written (c : Custody) (written : List Frame) :
    ({ c with written } : Custody).tally loan + owed c.written loan =
      c.tally loan + owed written loan := by
  rw [tally_eq, tally_eq]
  dsimp only
  omega

theorem tally_queue (c : Custody) (queue : Queue.Bounded Frame) :
    ({ c with queue } : Custody).tally loan + owed c.queue.items loan =
      c.tally loan + owed queue.items loan := by
  rw [tally_eq, tally_eq]
  dsimp only
  omega

theorem tally_without (h : c.Named) (id : String) :
    (c.without id).tally loan + owed (c.find? id).toList loan = c.tally loan := by
  have hfilter : owed ((c.named.filter (·.1 != id)).map Prod.snd) loan +
      owed (c.find? id).toList loan = owed (c.named.map Prod.snd) loan := owed_filter h id
  have hnamed : (c.without id).tally loan + owed (c.named.map Prod.snd) loan = _ :=
    tally_named loan c (c.named.filter (·.1 != id))
  omega

/-- A frame that is held leaves its variable. -/
theorem tally_without_of_find (h : c.Named) {id : String} {f : Frame} (hf : c.find? id = some f) :
    (c.without id).tally loan + f.loans.count loan = c.tally loan := by
  have hwithout := tally_without loan h id
  rw [hf, Option.toList_some, owed_cons, owed_nil] at hwithout
  exact hwithout

/-- What is in the variable ends, and its debt is paid. -/
theorem tally_put (h : c.Named) (id : String) (f : Frame) :
    (c.put id f).tally loan = c.tally loan + f.loans.count loan := by
  have hput : (c.put id f).tally loan + owed ((c.without id).named.map Prod.snd) loan = _ :=
    tally_named loan ((c.without id).release (c.find? id).toList) ((id, f) :: (c.without id).named)
  have hrelease : ((c.without id).release (c.find? id).toList).tally loan = _ :=
    tally_release loan (c.without id) (c.find? id).toList
  have hwithout := tally_without loan h id
  rw [owed_entries_cons] at hput
  omega

theorem named_putAll (h : c.Named) (entries : List (String × Frame)) :
    (c.putAll entries).Named := by
  induction entries generalizing c with
  | nil => exact h
  | cons entry rest ih => exact ih (named_put h entry.1 entry.2)

theorem tally_putAll (h : c.Named) (entries : List (String × Frame)) :
    (c.putAll entries).tally loan = c.tally loan + owed (entries.map Prod.snd) loan := by
  induction entries generalizing c with
  | nil => rfl
  | cons entry rest ih =>
    have hput := tally_put loan h entry.1 entry.2
    rw [List.map_cons, owed_cons]
    exact (ih (named_put h entry.1 entry.2)).trans (by omega)

theorem tally_replace (h : c.Named) {id : String} {f : Frame} (hf : c.find? id = some f)
    (g : Frame) :
    (c.replace id g).tally loan + f.loans.count loan = c.tally loan + g.loans.count loan := by
  have hreplace : (c.replace id g).tally loan + owed ((c.without id).named.map Prod.snd) loan = _ :=
    tally_named loan (c.without id) ((id, g) :: (c.without id).named)
  have hwithout := tally_without_of_find loan h hf
  rw [owed_entries_cons] at hreplace
  omega

end Moves

/-! ## Queues -/

section Queues

variable (q : Queue.Bounded Frame) (f : Frame) (loan : Loan)

/-- An offer that does not wait puts the frame into the queue or among the discarded ones. -/
theorem owed_offer (hanswer : (q.offer f).answer ≠ .wait) :
    owed (q.offer f).queue.items loan + owed (q.offer f).discarded loan =
      owed q.items loan + f.loans.count loan := by
  rcases q.offer_cases f with ⟨-, -, heq⟩ | ⟨-, heq⟩ | ⟨-, -, heq⟩ | ⟨-, -, heq⟩ | ⟨-, -, heq⟩
  · rw [heq, owed_cons, owed_nil]
    rfl
  · rw [heq, Queue.Bounded.append_items, owed_append, owed_cons, owed_nil]
    rfl
  · rw [heq, owed_cons, owed_nil]
    rfl
  · rw [heq]
    cases hitems : q.items with
    | nil =>
      show owed (q.items.tail ++ [f]) loan + owed [] loan = _
      rw [hitems]
      simp
    | cons oldest rest =>
      show owed (q.items.tail ++ [f]) loan + owed [oldest] loan = _
      rw [hitems, List.tail_cons, owed_append, owed_cons, owed_cons, owed_cons, owed_nil]
      omega
  · rw [heq] at hanswer
    exact absurd rfl hanswer

theorem owed_dequeueLatest :
    owed q.dequeueLatest.2.2 loan + owed q.dequeueLatest.1.toList loan = owed q.items loan := by
  rw [← owed_append, Queue.Bounded.items_dequeueLatest]

end Queues

/-! ## Steps -/

def Op.borrows : Op → Bool
  | .borrow _ _ _ _ => true
  | _ => false

/-- The loans that an operation makes. -/
def Op.made (lent : Nat) : Op → List Loan
  | .borrow _ _ _ _ => [lent]
  | _ => []

/-- Frames have been moved, made or ended. Loans have been made, and none has been lost. -/
structure Moved (c c' : Custody) (made : List Loan) : Prop where
  named : c'.Named
  tally : ∀ loan, c'.tally loan = c.tally loan + made.count loan
  lent : c'.lent = c.lent + made.length

section Step

variable {c c' : Custody} {id : String}

/-- No loan has been made. -/
theorem Moved.of_eq (hnamed : c'.Named) (htally : ∀ loan, c'.tally loan = c.tally loan)
    (hlent : c'.lent = c.lent) : Moved c c' [] :=
  ⟨hnamed, htally, hlent⟩

theorem Moved.refl (h : c.Named) : Moved c c [] := .of_eq h (fun _ => rfl) rfl

theorem Moved.put (h : c.Named) (id : String) {f : Frame} (hf : f.loans = []) :
    Moved c (c.put id f) [] := by
  refine .of_eq (named_put h id f) (fun loan => ?_) rfl
  rw [tally_put loan h, hf]
  rfl

/-- A frame that has left its place goes into a variable. -/
theorem Moved.arrive (c : Custody) (f : Frame) (id : String) (h : c'.Named)
    (hleft : ∀ loan, c'.tally loan + f.loans.count loan = c.tally loan)
    (hlent : c'.lent = c.lent) : Moved c (c'.put id f) [] :=
  .of_eq (named_put h id f) (fun loan => (tally_put loan h id f).trans (hleft loan)) hlent

theorem Moved.putMade (h : c.Named) (id : String) {made : Except FrameError Frame}
    (hmade : ∀ f, made = .ok f → f.loans = []) : Moved c (c.putMade id made).2 [] := by
  cases made with
  | ok f => exact .put h id (hmade f rfl)
  | error e => exact .refl h

theorem onFrame_cases {P : Custody → Prop} (h : P c) {k : Frame → Reply × Custody}
    (hk : ∀ f, c.find? id = some f → P (k f).2) : P (c.onFrame id k).2 := by
  unfold onFrame
  cases hf : c.find? id with
  | some f => exact hk f hf
  | none => exact h

theorem Moved.onFrame (h : c.Named) {k : Frame → Reply × Custody}
    (hk : ∀ f, c.find? id = some f → Moved c (k f).2 []) : Moved c (c.onFrame id k).2 [] :=
  onFrame_cases (P := fun c' => Moved c c' []) (.refl h) hk

theorem lent_putAll (c : Custody) (entries : List (String × Frame)) :
    (c.putAll entries).lent = c.lent := by
  induction entries generalizing c with
  | nil => rfl
  | cons entry rest ih => exact ih (c.put entry.1 entry.2)

theorem step_moved (h : c.Named) (op : Op) : Moved c (c.step op).2 (op.made c.lent) := by
  cases op with
  | zeros target channels samplesPerChannel => exact .put h target rfl
  | ofSamples target channels samplesPerChannel samples =>
    exact .putMade h target fun f hok =>
      congrArg Storage.loans (Frame.storage_of_ofSamples? hok)
  | ofBuffer target buffer rate firstIndex =>
    exact .putMade h target fun f hok =>
      congrArg Storage.loans (Frame.storage_of_ofBuffer? hok)
  | borrow target channels samplesPerChannel memory =>
    have hnamed : ({ c with lent := c.lent + 1 } : Custody).Named := h
    refine ⟨named_put hnamed target _, fun loan => ?_, rfl⟩
    exact tally_put loan hnamed target _
  | describe id sequence timestamp rate firstIndex flags =>
    refine .onFrame h fun f hf => .of_eq (named_cons_without h id _) (fun loan => ?_) rfl
    exact Nat.add_right_cancel (tally_replace loan h hf _)
  | write id index sample =>
    refine .onFrame h fun f hf => ?_
    split
    · exact .refl h
    · exact .refl h
    · rename_i g hok
      obtain ⟨hold, hnew, -⟩ := Frame.modify?_ok hok
      refine .of_eq (named_cons_without h id _) (fun loan => ?_) rfl
      have hreplace := tally_replace loan h hf g
      rw [Frame.loans_of_not_borrowed hold, Frame.loans_of_not_borrowed hnew] at hreplace
      exact hreplace
  | materialize id =>
    refine .onFrame h fun f hf => .of_eq (named_cons_without h id _) (fun loan => ?_) rfl
    have hreplace := tally_replace loan h hf f.materialize
    rw [tally_release, owed_cons, owed_nil]
    rw [Frame.loans_materialize, List.count_nil] at hreplace
    omega
  | copy id target =>
    refine .onFrame h fun f hf => ?_
    dsimp only
    split
    · exact .refl h
    · exact .put h target rfl
  | move id target =>
    exact .onFrame h fun f hf => .arrive c f target (named_without h id)
      (fun loan => tally_without_of_find loan h hf) rfl
  | drop id =>
    refine .onFrame h fun f hf => .of_eq (named_without h id) (fun loan => ?_) rfl
    rw [tally_release, owed_cons, owed_nil, Nat.add_zero, tally_without_of_find loan h hf]
  | offer id =>
    refine .onFrame h fun f hf => .of_eq (named_without h id) (fun loan => ?_) rfl
    have hview := tally_view loan (c.without id) (c.view ++ [f])
    have hwithout := tally_without_of_find loan h hf
    have hsame : owed (c.without id).view loan = owed c.view loan := rfl
    refine Nat.add_right_cancel (hview.trans ?_)
    rw [owed_append, owed_cons, owed_nil]
    omega
  | take target =>
    unfold step
    cases hview : c.view with
    | nil => exact .refl h
    | cons f rest =>
      refine .arrive c f target h (fun loan => ?_) rfl
      have htaken := tally_view loan c rest
      rw [hview, owed_cons] at htaken
      omega
  | push id =>
    refine .onFrame h fun f hf => .of_eq (named_without h id) (fun loan => ?_) rfl
    have hwritten := tally_written loan (c.without id) (c.written ++ [f.materialize])
    have hwithout := tally_without_of_find loan h hf
    have hsame : owed (c.without id).written loan = owed c.written loan := rfl
    rw [owed_append, owed_cons, owed_nil, Frame.loans_materialize, List.count_nil] at hwritten
    rw [tally_release, owed_cons, owed_nil, ← hwithout]
    exact congrArg (· + _) (Nat.add_right_cancel hwritten)
  | collect targets =>
    unfold step
    have hnamed : (({ c with written := [] } : Custody).release
        (c.written.drop targets.length)).Named := h
    refine .of_eq (named_putAll hnamed _) (fun loan => ?_) (lent_putAll _ _)
    -- The frames that no variable is left for have ended before the others arrive.
    have hwritten := tally_written loan c []
    have hdrop := owed_take_drop targets.length c.written loan
    refine (tally_putAll loan hnamed _).trans ?_
    rw [tally_release, map_snd_zip]
    rw [owed_nil] at hwritten
    omega
  | enqueue id =>
    refine .onFrame h fun f hf => ?_
    dsimp only
    split
    · exact .refl h
    · rename_i hanswer
      refine .of_eq (named_without h id) (fun loan => ?_) rfl
      -- The frame has gone into the queue, or it or an older one ends.
      have hoffer := owed_offer c.queue f loan hanswer
      have hqueue := tally_queue loan (c.without id) (c.queue.offer f).queue
      have hwithout := tally_without_of_find loan h hf
      have hsame : owed (c.without id).queue.items loan = owed c.queue.items loan := rfl
      rw [tally_release]
      omega
  | dequeue target =>
    unfold step
    rw [Queue.Bounded.dequeue_eq]
    cases hitems : c.queue.items with
    | nil => exact .refl h
    | cons f rest =>
      refine .arrive c f target h (fun loan => ?_) rfl
      have htaken := tally_queue loan c { c.queue with items := rest }
      rw [hitems, owed_cons] at htaken
      dsimp only [List.tail_cons] at htaken ⊢
      omega
  | dequeueLatest target =>
    unfold step
    have hall := owed_dequeueLatest c.queue
    rw [Queue.Bounded.dequeueLatest] at hall ⊢
    cases hlast : c.queue.items.getLast? with
    | none => exact .refl h
    | some f =>
      refine .arrive c f target h (fun loan => ?_) rfl
      have hdrained := tally_queue loan c { c.queue with items := [] }
      have hstale := hall loan
      rw [hlast, Option.toList_some, owed_cons, owed_nil] at hstale
      rw [owed_nil] at hdrained
      rw [tally_release]
      dsimp only at hdrained hstale ⊢
      omega
  | shutdown => exact .of_eq h (fun _ => rfl) rfl
  | renew capacity policy =>
    refine .of_eq h (fun loan => ?_) rfl
    have hqueue := tally_queue loan c (.new capacity policy)
    exact (tally_release loan _ c.queue.items).trans hqueue

/-- Nothing that a stage has made is borrowed. -/
def Owning (c : Custody) : Prop := ∀ f ∈ c.written, f.isBorrowed = false

theorem written_putAll (c : Custody) (entries : List (String × Frame)) :
    (c.putAll entries).written = c.written := by
  induction entries generalizing c with
  | nil => rfl
  | cons entry rest ih => exact ih (c.put entry.1 entry.2)

theorem Owning.putMade (h : c.Owning) (id : String) (made : Except FrameError Frame) :
    (c.putMade id made).2.Owning := by
  cases made with
  | ok f => exact h
  | error e => exact h

theorem step_owning (h : c.Owning) (op : Op) : (c.step op).2.Owning := by
  cases op with
  | zeros target channels samplesPerChannel => exact h
  | ofSamples target channels samplesPerChannel samples => exact h.putMade target _
  | ofBuffer target buffer rate firstIndex => exact h.putMade target _
  | borrow target channels samplesPerChannel memory => exact h
  | describe id sequence timestamp rate firstIndex flags => exact onFrame_cases h fun _ _ => h
  | write id index sample =>
    refine onFrame_cases h fun f _ => ?_
    split
    · exact h
    · exact h
    · exact h
  | materialize id => exact onFrame_cases h fun _ _ => h
  | copy id target =>
    refine onFrame_cases h fun f _ => ?_
    dsimp only
    split
    · exact h
    · exact h
  | move id target => exact onFrame_cases h fun _ _ => h
  | drop id => exact onFrame_cases h fun _ _ => h
  | offer id => exact onFrame_cases h fun _ _ => h
  | take target =>
    unfold step
    cases c.view with
    | nil => exact h
    | cons f rest => exact h
  | push id =>
    refine onFrame_cases h fun f _ => ?_
    intro g hg
    rcases List.mem_append.mp hg with hold | hnew
    · exact h g hold
    · rw [List.mem_singleton.mp hnew]
      rfl
  | collect targets =>
    intro g hg
    unfold step at hg
    rw [written_putAll] at hg
    exact absurd hg List.not_mem_nil
  | enqueue id =>
    refine onFrame_cases h fun f _ => ?_
    dsimp only
    split
    · exact h
    · exact h
  | dequeue target =>
    unfold step
    rw [Queue.Bounded.dequeue_eq]
    cases c.queue.items with
    | nil => exact h
    | cons f rest => exact h
  | dequeueLatest target =>
    unfold step
    rw [Queue.Bounded.dequeueLatest]
    cases c.queue.items.getLast? with
    | none => exact h
    | some f => exact h
  | shutdown => exact h
  | renew capacity policy => exact h

end Step

/-! ## Runs -/

/-- Each loan made is held once or has been given back once, and nothing that a stage has made is
borrowed. -/
structure Sound (c : Custody) : Prop where
  named : c.Named
  tally : ∀ loan, c.tally loan = if loan < c.lent then 1 else 0
  owning : c.Owning

section Runs

variable {c : Custody}

theorem start_sound : Sound {} where
  named := List.nodup_nil
  tally := fun loan => (if_neg (Nat.not_lt_zero loan)).symm
  owning := fun _ hmem => absurd hmem List.not_mem_nil

theorem step_sound (h : c.Sound) (op : Op) : (c.step op).2.Sound := by
  have hmoved := step_moved h.named op
  refine ⟨hmoved.named, ?_, step_owning h.owning op⟩
  intro loan
  rw [hmoved.tally, h.tally, hmoved.lent]
  cases op with
  | borrow target channels samplesPerChannel memory =>
    show _ + [c.lent].count loan = if loan < c.lent + 1 then 1 else 0
    rw [List.count_singleton]
    rcases Nat.lt_trichotomy loan c.lent with hlt | rfl | hgt
    · rw [if_pos hlt, beq_false_of_ne (Nat.ne_of_gt hlt), if_pos (Nat.lt_succ_of_lt hlt)]
      rfl
    · rw [if_neg (Nat.lt_irrefl _), beq_self_eq_true, if_pos rfl, if_pos (Nat.lt_succ_self _)]
    · rw [if_neg (Nat.not_lt_of_lt hgt), beq_false_of_ne (Nat.ne_of_lt hgt),
        if_neg (Nat.not_lt_of_le hgt)]
      rfl
  | _ => rfl

theorem run_sound (h : c.Sound) (ops : List Op) : (c.run ops).Sound := by
  induction ops generalizing c with
  | nil => exact h
  | cons op ops ih => exact ih (step_sound h op)

theorem lent_run (h : c.Sound) (ops : List Op) :
    (c.run ops).lent = c.lent + ops.countP Op.borrows := by
  induction ops generalizing c with
  | nil => rfl
  | cons op ops ih =>
    have hmoved := (step_moved h.named op).lent
    have hone : (op.made c.lent).length = if op.borrows then 1 else 0 := by
      cases op with
      | _ => rfl
    rw [List.countP_cons]
    exact (ih (step_sound h op)).trans (by omega)

/-- The loans made are those given back and those held. -/
theorem Sound.perm (h : c.Sound) : (c.released ++ c.held).Perm (List.range c.lent) := by
  rw [List.perm_iff_count]
  intro loan
  rw [List.count_append, List.nodup_range.count]
  simp only [List.mem_range]
  exact h.tally loan

theorem length_held (c : Custody) : c.held.length = c.frames.countP Frame.isBorrowed := by
  rw [held]
  induction c.frames with
  | nil => rfl
  | cons f frames ih =>
    have hone : f.loans.length = if f.isBorrowed then 1 else 0 := by
      rw [Frame.loans, Frame.isBorrowed]
      cases f.storage with
      | owned samples => rfl
      | borrowed loan samples => rfl
    rw [List.flatMap_cons, List.length_append, ih, List.countP_cons, hone, Nat.add_comm]

end Runs

end Custody

end Oscilloscope
