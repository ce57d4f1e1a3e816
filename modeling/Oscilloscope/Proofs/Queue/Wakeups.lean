import Mathlib.Data.List.Basic
import Oscilloscope.Queue.Producers
import Oscilloscope.Proofs.Queue.History

/-!
# Oscilloscope.Proofs.Queue.Wakeups

No wake-up is lost at a queue under `block`.

`Watch` runs any sequence of moves on a shop and writes down what went into the queue, with the
producer whose item it was, and what left it. A producer that is woken has not got a place yet: a
newcomer may take the place first, and then the woken one sleeps again. What holds through all of
this is a count: while somebody sleeps, the items in the queue and the producers that are woken and
have not looked yet are together no fewer than the places (`Shop.Awake`).

* `Shop.moved_of_step`: everything that one move can come to.
* `Shop.awake_of_moved`, `Shop.allUp_of_moved`: what a move keeps, before and after a shutdown.
* `Watch.step_sound`: the accounts of the items.
* `Watch.run_wakes`: all of it, for every capacity, every number of producers and every order of
  moves.
-/

namespace Oscilloscope
namespace Queue

variable {α : Type}

/-- How an item left the queue. -/
inductive Removal (α : Type) where
  | delivered (item : α)
  | drained (item : α)
deriving DecidableEq

namespace Removal

def item : Removal α → α
  | delivered a => a
  | drained a => a

def delivered? : Removal α → Option α
  | delivered a => some a
  | drained _ => none

def drained? : Removal α → Option α
  | delivered _ => none
  | drained a => some a

theorem item_drained (l : List α) : (l.map drained).map item = l := by
  induction l with
  | nil => rfl
  | cons a l ih => simpa [item] using ih

theorem delivered?_drained (l : List α) : (l.map drained).filterMap delivered? = [] := by
  simp [delivered?]

theorem drained?_drained (l : List α) : (l.map drained).filterMap drained? = l := by
  induction l with
  | nil => rfl
  | cons a l ih => simpa [drained?] using ih

end Removal

namespace Producer

/-- The item that a producer still has. -/
def item? : Producer α → Option α
  | running a => some a
  | asleep a => some a
  | notified a => some a
  | done _ => none

theorem item?_of_ready? {p : Producer α} {a : α} (h : p.ready? = some a) : p.item? = some a := by
  cases p with
  | running b => exact h
  | notified b => exact h
  | asleep b => cases h
  | done b => cases h

@[simp] theorem item?_notify (p : Producer α) : p.notify.item? = p.item? := by cases p <;> rfl

@[simp] theorem isAsleep_notify (p : Producer α) : p.notify.isAsleep = false := by
  cases p <;> rfl

theorem notify_of_not_asleep {p : Producer α} (h : p.isAsleep = false) : p.notify = p := by
  cases p with
  | asleep a => cases h
  | _ => rfl

@[simp] theorem isNotified_done (o : Answer) : (done o : Producer α).isNotified = false := rfl
@[simp] theorem isNotified_asleep (a : α) : (asleep a).isNotified = false := rfl
@[simp] theorem isNotified_notified (a : α) : (notified a).isNotified = true := rfl

theorem notify_eq_done_iff {p : Producer α} {o : Answer} : p.notify = done o ↔ p = done o := by
  cases p <;> simp [notify]

end Producer

namespace Shop

/-- Nobody is asleep. -/
def AllUp (s : Shop α) : Prop := ∀ p ∈ s.producers, p.isAsleep = false

def notified (s : Shop α) : Nat := s.producers.countP Producer.isNotified

/-- While somebody sleeps, every place is either taken or somebody is on the way to look at it. -/
def Awake (s : Shop α) : Prop :=
  s.queue.isShutdown = false → (∃ p ∈ s.producers, p.isAsleep = true) →
    s.queue.capacity ≤ s.queue.length + s.notified

/-! ## What a move can come to -/

/-- What a move puts into the queue, with the producer whose item it is. -/
def entering (s : Shop α) : Action → List (Nat × α)
  | .attempt i =>
    match s.producers[i]?.bind Producer.ready? with
    | some a => if (s.queue.offer a).answer = .accepted then [(i, a)] else []
    | none => []
  | _ => []

/-- What a move takes out of the queue. -/
def leaving (s : Shop α) : Action → List (Removal α)
  | .dequeue _ => s.queue.dequeue.1.toList.map .delivered
  | .dequeueLatest =>
    let (latest, _, stale) := s.queue.dequeueLatest
    stale.map .drained ++ latest.toList.map .delivered
  | _ => []

/-- One move under `block`: what it is, what goes in, what comes out, and what is left. -/
inductive Moved (s : Shop α) : Action → List (Nat × α) → List (Removal α) → Shop α → Prop where
  | accepted {i : Nat} {p : Producer α} {a : α} (hp : s.producers[i]? = some p)
      (ha : p.ready? = some a) (hroom : s.queue.length < s.queue.capacity)
      (hopen : s.queue.isShutdown = false) :
      Moved s (.attempt i) [(i, a)] []
        { s with queue := s.queue.append a, producers := s.producers.set i (.done .accepted) }
  | refused {i : Nat} {p : Producer α} {a : α} (hp : s.producers[i]? = some p)
      (ha : p.ready? = some a) (hdown : s.queue.isShutdown = true) :
      Moved s (.attempt i) [] []
        { s with producers := s.producers.set i (.done .shutdown),
                 discarded := s.discarded ++ [a] }
  | sleeps {i : Nat} {p : Producer α} {a : α} (hp : s.producers[i]? = some p)
      (ha : p.ready? = some a) (hfull : s.queue.capacity ≤ s.queue.length)
      (hopen : s.queue.isShutdown = false) :
      Moved s (.attempt i) [] [] { s with producers := s.producers.set i (.asleep a) }
  | wakes {i : Nat} {a : α} (hp : s.producers[i]? = some (.asleep a)) :
      Moved s (.wake i) [] [] { s with producers := s.producers.set i (.notified a) }
  | findsNothing {act : Action} (hact : act = .dequeueLatest ∨ ∃ i, act = .dequeue i)
      (hitems : s.queue.items = []) : Moved s act [] [] s
  /-- An item is taken, and a sleeper is woken for the free place. -/
  | handsOver {i : Nat} {a b : α} {rest : List α} (hitems : s.queue.items = a :: rest)
      (hp : s.producers[i]? = some (.asleep b)) :
      Moved s (.dequeue i) [] [.delivered a]
        { s with queue := { s.queue with items := rest }, delivered := s.delivered ++ [a],
                 producers := s.producers.set i (.notified b) }
  /-- An item is taken, and there is no sleeper to wake. -/
  | dequeues {i : Nat} {a : α} {rest : List α} (hitems : s.queue.items = a :: rest)
      (hup : s.AllUp) :
      Moved s (.dequeue i) [] [.delivered a]
        { s with queue := { s.queue with items := rest }, delivered := s.delivered ++ [a] }
  | takesLatest {a : α} {stale : List α} (hitems : s.queue.items = stale ++ [a]) :
      Moved s .dequeueLatest [] (stale.map .drained ++ [.delivered a])
        { s with queue := { s.queue with items := [] }, delivered := s.delivered ++ [a],
                 drained := s.drained ++ stale, producers := s.producers.map Producer.notify }
  | closes : Moved s .close [] [] { s with queue := s.queue.shutdown }
  | announces : Moved s .announce [] [] { s with producers := s.producers.map Producer.notify }

theorem mayNotify_cases {s : Shop α} {i : Nat} (h : s.mayNotify i = true) :
    (∃ a, s.producers[i]? = some (.asleep a)) ∨ s.AllUp := by
  have hup : (!s.producers.any Producer.isAsleep) = true → s.AllUp := by
    intro hnone p hp
    simpa using List.any_eq_false.mp (by simpa using hnone) p hp
  rw [mayNotify] at h
  cases hp : s.producers[i]? with
  | none =>
    rw [hp] at h
    exact .inr (hup h)
  | some p =>
    rw [hp] at h
    rcases Bool.or_eq_true_iff.mp h with hasleep | hnone
    · cases p with
      | asleep a => exact .inl ⟨a, rfl⟩
      | _ => cases hasleep
    · exact .inr (hup hnone)

/-- Nobody is woken by mistake: a wake-up that finds all up leaves all as they are. -/
theorem modify_notify_of_allUp {s : Shop α} (hup : s.AllUp) (i : Nat) :
    s.producers.modify i Producer.notify = s.producers := by
  rw [List.modify_eq_set_getElem?]
  cases hp : s.producers[i]? with
  | none => rfl
  | some p =>
    obtain ⟨hi, hget⟩ := List.getElem?_eq_some_iff.mp hp
    have hsame : p.notify = p :=
      Producer.notify_of_not_asleep (hup p (List.mem_of_getElem? hp))
    rw [Option.map_eq_map, Option.map_some, Option.getD_some, hsame, ← hget]
    exact List.set_getElem_self hi

theorem modify_notify_of_asleep {s : Shop α} {i : Nat} {a : α}
    (hp : s.producers[i]? = some (.asleep a)) :
    s.producers.modify i Producer.notify = s.producers.set i (.notified a) := by
  rw [List.modify_eq_set_getElem?, hp]
  rfl

theorem moved_of_attempt {s t : Shop α} {i : Nat} (hblock : s.queue.policy = .block)
    (h : s.attempt i = some t) :
    Moved s (.attempt i) (s.entering (.attempt i)) (s.leaving (.attempt i)) t := by
  simp only [attempt, Option.bind_eq_bind, Option.bind_eq_some_iff] at h
  obtain ⟨p, hp, a, ha, ho⟩ := h
  simp only [entering, leaving, hp, Option.bind_some, ha]
  cases hdown : s.queue.isShutdown with
  | true =>
    rw [Bounded.offer_refused a hblock hdown] at ho ⊢
    cases ho
    exact .refused hp ha hdown
  | false =>
    by_cases hfull : s.queue.capacity ≤ s.queue.length
    · rw [Bounded.offer_waits a hfull hblock hdown] at ho ⊢
      cases ho
      exact .sleeps hp ha hfull hdown
    · rw [Bounded.offer_room a (by omega) (by simp [hdown])] at ho ⊢
      simp only [List.append_nil, Option.some.injEq] at ho
      subst ho
      exact .accepted hp ha (by omega) hdown

theorem moved_of_dequeue {s t : Shop α} {i : Nat} (h : s.step (.dequeue i) = some t) :
    Moved s (.dequeue i) (s.entering (.dequeue i)) (s.leaving (.dequeue i)) t := by
  simp only [step, Bounded.dequeue_eq] at h
  simp only [entering, leaving, Bounded.dequeue_eq]
  cases hitems : s.queue.items with
  | nil =>
    rw [hitems] at h
    cases h
    exact .findsNothing (.inr ⟨i, rfl⟩) hitems
  | cons a rest =>
    rw [hitems] at h
    dsimp only [List.head?_cons, List.tail_cons] at h
    split at h
    · rename_i hmay
      cases h
      rcases mayNotify_cases hmay with ⟨b, hb⟩ | hup
      · rw [modify_notify_of_asleep hb]
        exact .handsOver hitems hb
      · rw [modify_notify_of_allUp hup]
        exact .dequeues hitems hup
    · cases h

theorem moved_of_dequeueLatest {s t : Shop α} (h : s.step .dequeueLatest = some t) :
    Moved s .dequeueLatest (s.entering .dequeueLatest) (s.leaving .dequeueLatest) t := by
  simp only [step, Bounded.dequeueLatest] at h
  simp only [entering, leaving, Bounded.dequeueLatest]
  cases hlast : s.queue.items.getLast? with
  | none =>
    have hitems : s.queue.items = [] := List.getLast?_eq_none_iff.mp hlast
    rw [hlast] at h
    cases h
    simpa [hitems] using Moved.findsNothing (.inl rfl) hitems
  | some a =>
    have hitems : s.queue.items = s.queue.items.dropLast ++ [a] :=
      (List.dropLast_append_getLast? a hlast).symm
    rw [hlast] at h
    cases h
    exact .takesLatest hitems

theorem moved_of_step {s t : Shop α} {act : Action} (hblock : s.queue.policy = .block)
    (h : s.step act = some t) : Moved s act (s.entering act) (s.leaving act) t := by
  cases act with
  | attempt i => exact moved_of_attempt hblock h
  | wake i =>
    simp only [step] at h
    split at h
    · rename_i a hp
      cases h
      exact .wakes hp
    · cases h
  | dequeue i => exact moved_of_dequeue h
  | dequeueLatest => exact moved_of_dequeueLatest h
  | close =>
    cases h
    exact .closes
  | announce =>
    cases h
    exact .announces

/-! ## Who sleeps -/

section Sleepers

variable {s t : Shop α} {act : Action} {into : List (Nat × α)} {out : List (Removal α)}

theorem allUp_iff_not_exists :
    s.AllUp ↔ ¬∃ p ∈ s.producers, p.isAsleep = true := by
  simp [AllUp]

/-- Replacing a producer by one that is up leaves no more sleepers than there were. -/
theorem exists_asleep_of_set {ps : List (Producer α)} {i : Nat} {q : Producer α}
    (hq : q.isAsleep = false) (h : ∃ p ∈ ps.set i q, p.isAsleep = true) :
    ∃ p ∈ ps, p.isAsleep = true := by
  obtain ⟨p, hmem, hp⟩ := h
  rcases List.mem_or_eq_of_mem_set hmem with hmem | rfl
  · exact ⟨p, hmem, hp⟩
  · rw [hq] at hp; cases hp

theorem not_exists_asleep_map_notify (ps : List (Producer α)) :
    ¬∃ p ∈ ps.map Producer.notify, p.isAsleep = true := by
  simp

/-- Replacing one producer changes the number of woken ones by at most that one. -/
theorem countP_set_add {ps : List (Producer α)} {i : Nat} {p q : Producer α}
    (hp : ps[i]? = some p) :
    (ps.set i q).countP Producer.isNotified + p.isNotified.toNat =
      ps.countP Producer.isNotified + q.isNotified.toNat := by
  obtain ⟨hi, hget⟩ := List.getElem?_eq_some_iff.mp hp
  have hpos : p.isNotified = true → 0 < ps.countP Producer.isNotified := fun h =>
    List.countP_pos_iff.mpr ⟨p, List.mem_of_getElem? hp, h⟩
  rw [List.countP_set hi, hget]
  cases hpn : p.isNotified with
  | false => cases q.isNotified <;> simp
  | true =>
    have := hpos hpn
    cases q.isNotified <;> simp <;> omega

/-- A move keeps the count: the newcomer who takes a free place fills it, the woken producer who
finds none knows that all are taken, and each place that becomes free has a wake-up with it. -/
theorem awake_of_moved (hm : Moved s act into out t) (h : s.Awake) : t.Awake := by
  cases hm with
  | @accepted i p a hp ha hroom _ =>
    intro hopen hasleep
    have hcount := countP_set_add (q := .done .accepted) hp
    have hlen := h hopen (exists_asleep_of_set rfl hasleep)
    have hone : p.isNotified.toNat ≤ 1 := Bool.toNat_le p.isNotified
    simp only [Shop.notified, Bounded.length_eq, Bounded.append_capacity, Bounded.append_items,
      List.length_append, List.length_singleton, Producer.isNotified_done, Bool.toNat_false]
      at hlen hcount ⊢
    omega
  | refused hp ha hdown =>
    intro hopen _
    rw [hdown] at hopen
    cases hopen
  | sleeps hp ha hfull hopen =>
    intro _ _
    exact Nat.le_add_right_of_le hfull
  | @wakes i a hp =>
    intro hopen hasleep
    have hcount := countP_set_add (q := .notified a) hp
    have hlen := h hopen (exists_asleep_of_set rfl hasleep)
    simp only [Shop.notified, Producer.isNotified_asleep, Producer.isNotified_notified,
      Bool.toNat_false, Bool.toNat_true] at hlen hcount ⊢
    omega
  | findsNothing hact hitems => exact h
  | @handsOver i a b rest hitems hp =>
    intro hopen hasleep
    have hcount := countP_set_add (q := .notified b) hp
    have hlen := h hopen (exists_asleep_of_set rfl hasleep)
    simp only [Shop.notified, Bounded.length_eq, hitems, List.length_cons,
      Producer.isNotified_asleep, Producer.isNotified_notified, Bool.toNat_false,
      Bool.toNat_true] at hlen hcount ⊢
    omega
  | dequeues hitems hup =>
    intro _ hasleep
    exact absurd hasleep (allUp_iff_not_exists.mp hup)
  | takesLatest hitems =>
    intro _ hasleep
    exact absurd hasleep (not_exists_asleep_map_notify s.producers)
  | closes =>
    intro hopen _
    cases hopen
  | announces =>
    intro _ hasleep
    exact absurd hasleep (not_exists_asleep_map_notify s.producers)

theorem isShutdown_of_moved (hm : Moved s act into out t) (hdown : s.queue.isShutdown = true) :
    t.queue.isShutdown = true := by
  cases hm with
  | closes => rfl
  | _ => exact hdown

/-- Before a shutdown nothing but a shutdown marks the queue. -/
theorem not_isShutdown_of_moved (hm : Moved s act into out t) (hact : act ≠ .close)
    (hopen : s.queue.isShutdown = false) : t.queue.isShutdown = false := by
  cases hm with
  | closes => exact absurd rfl hact
  | _ => exact hopen

/-- After a shutdown nobody falls asleep any more. -/
theorem allUp_of_moved (hm : Moved s act into out t) (hdown : s.queue.isShutdown = true)
    (hup : s.AllUp) : t.AllUp := by
  have hset : ∀ {i : Nat} {q : Producer α}, q.isAsleep = false →
      ¬∃ p ∈ s.producers.set i q, p.isAsleep = true := fun hq hex =>
    allUp_iff_not_exists.mp hup (exists_asleep_of_set hq hex)
  rw [allUp_iff_not_exists]
  cases hm with
  | accepted hp ha hroom _ => exact hset rfl
  | refused hp ha _ => exact hset rfl
  | sleeps hp ha hfull hopen => rw [hdown] at hopen; cases hopen
  | wakes hp => exact hset rfl
  | findsNothing hact hitems => exact allUp_iff_not_exists.mp hup
  | handsOver hitems hp => exact hset rfl
  | dequeues hitems _ => exact allUp_iff_not_exists.mp hup
  | takesLatest hitems => exact not_exists_asleep_map_notify s.producers
  | closes => exact allUp_iff_not_exists.mp hup
  | announces => exact not_exists_asleep_map_notify s.producers

end Sleepers

/-! ## What a move leaves to the producers -/

/-- The producers after a move that accepts nothing: who was answered before is answered the same,
and who still has an item had it before. -/
def Kept (ps qs : List (Producer α)) : Prop :=
  qs.length = ps.length ∧
    ∀ i : Nat, (qs[i]? = some (.done .accepted) ↔ ps[i]? = some (.done .accepted)) ∧
      ∀ a, qs[i]?.bind Producer.item? = some a → ps[i]?.bind Producer.item? = some a

theorem Kept.refl (ps : List (Producer α)) : Kept ps ps := ⟨rfl, fun _ => ⟨.rfl, fun _ h => h⟩⟩

theorem kept_set {ps : List (Producer α)} {i : Nat} {p q : Producer α} {a : α}
    (hp : ps[i]? = some p) (ha : p.item? = some a) (hq : q ≠ .done .accepted)
    (hitem : ∀ b, q.item? = some b → p.item? = some b) : Kept ps (ps.set i q) := by
  refine ⟨List.length_set, fun j => ?_⟩
  have hi : i < ps.length := (List.getElem?_eq_some_iff.mp hp).1
  have hne : p ≠ .done .accepted := by
    rintro rfl
    cases ha
  rw [List.getElem?_set]
  by_cases hj : i = j
  · subst hj
    rw [if_pos rfl, if_pos hi, hp]
    exact ⟨by simp [hq, hne], fun b hb => hitem b hb⟩
  · rw [if_neg hj]
    exact ⟨.rfl, fun _ h => h⟩

theorem kept_map_notify (ps : List (Producer α)) : Kept ps (ps.map Producer.notify) := by
  refine ⟨List.length_map _, fun j => ?_⟩
  rw [List.getElem?_map]
  cases ps[j]? with
  | none => exact ⟨by simp, fun _ h => h⟩
  | some p => exact ⟨by simp [Producer.notify_eq_done_iff], fun b hb => by simpa using hb⟩

section Moves

variable {s t : Shop α} {act : Action} {into : List (Nat × α)} {out : List (Removal α)}

/-- A move accepts nothing, or it accepts the item of one producer and answers that one. -/
theorem producers_of_moved (hm : Moved s act into out t) :
    (into = [] ∧ Kept s.producers t.producers) ∨
      ∃ i a p, into = [(i, a)] ∧ s.producers[i]? = some p ∧ p.item? = some a ∧
        t.producers = s.producers.set i (.done .accepted) := by
  cases hm with
  | accepted hp ha hroom _ =>
    exact .inr ⟨_, _, _, rfl, hp, Producer.item?_of_ready? ha, rfl⟩
  | refused hp ha _ =>
    exact .inl ⟨rfl, kept_set hp (Producer.item?_of_ready? ha) (by simp) fun _ h => by cases h⟩
  | sleeps hp ha hfull hopen =>
    have hitem := Producer.item?_of_ready? ha
    exact .inl ⟨rfl, kept_set hp hitem (by simp) fun _ h => hitem.trans h⟩
  | wakes hp => exact .inl ⟨rfl, kept_set hp rfl (by simp) fun _ h => h⟩
  | findsNothing hact hitems => exact .inl ⟨rfl, .refl _⟩
  | handsOver hitems hp => exact .inl ⟨rfl, kept_set hp rfl (by simp) fun _ h => h⟩
  | dequeues hitems hup => exact .inl ⟨rfl, .refl _⟩
  | takesLatest hitems => exact .inl ⟨rfl, kept_map_notify _⟩
  | closes => exact .inl ⟨rfl, .refl _⟩
  | announces => exact .inl ⟨rfl, kept_map_notify _⟩

/-- What leaves and what stays is, in order, what was there and what comes in. -/
theorem items_of_moved (hm : Moved s act into out t) :
    out.map Removal.item ++ t.queue.items = s.queue.items ++ into.map Prod.snd := by
  cases hm with
  | handsOver hitems hp => simp [hitems, Removal.item]
  | dequeues hitems hup => simp [hitems, Removal.item]
  | takesLatest hitems =>
    rw [hitems, List.map_append, Removal.item_drained]
    simp [Removal.item]
  | _ => simp [Bounded.shutdown]

theorem delivered_of_moved (hm : Moved s act into out t) :
    t.delivered = s.delivered ++ out.filterMap Removal.delivered? := by
  cases hm with
  | takesLatest hitems =>
    rw [List.filterMap_append, Removal.delivered?_drained]
    simp [Removal.delivered?]
  | _ => simp [Removal.delivered?]

theorem drained_of_moved (hm : Moved s act into out t) :
    t.drained = s.drained ++ out.filterMap Removal.drained? := by
  cases hm with
  | takesLatest hitems =>
    rw [List.filterMap_append, Removal.drained?_drained]
    simp [Removal.drained?]
  | _ => simp [Removal.drained?]

theorem policy_of_moved (hm : Moved s act into out t) : t.queue.policy = s.queue.policy := by
  cases hm <;> rfl

theorem capacity_of_moved (hm : Moved s act into out t) :
    t.queue.capacity = s.queue.capacity := by
  cases hm <;> rfl

theorem length_of_moved (hm : Moved s act into out t)
    (h : s.queue.length ≤ s.queue.capacity) : t.queue.length ≤ t.queue.capacity := by
  cases hm with
  | accepted hp ha hroom _ =>
    simp only [Bounded.length_eq, Bounded.append_items, Bounded.append_capacity,
      List.length_append, List.length_singleton] at hroom ⊢
    omega
  | handsOver hitems hp =>
    simp only [Bounded.length_eq, hitems, List.length_cons] at h ⊢
    omega
  | dequeues hitems hup =>
    simp only [Bounded.length_eq, hitems, List.length_cons] at h ⊢
    omega
  | takesLatest hitems => exact Nat.zero_le _
  | _ => exact h

end Moves

end Shop

/-! ## Watching a run -/

/-- A shop with its past. -/
structure Watch (α : Type) where
  shop : Shop α
  /-- The items accepted, each with its producer, in the order in which they were accepted. -/
  accepted : List (Nat × α) := []
  /-- The items that have left the queue, in the order in which they left. -/
  removed : List (Removal α) := []

namespace Watch

def ofItems (capacity : Nat) (items : List α) : Watch α :=
  { shop := .ofItems (.new capacity .block) items }

/-- A move that is not possible is left out. -/
def step (w : Watch α) (act : Action) : Watch α :=
  match w.shop.step act with
  | none => w
  | some s =>
    { shop := s, accepted := w.accepted ++ w.shop.entering act,
      removed := w.removed ++ w.shop.leaving act }

def run (w : Watch α) (actions : List Action) : Watch α := actions.foldl step w

@[simp] theorem run_nil (w : Watch α) : w.run [] = w := rfl
@[simp] theorem run_cons (w : Watch α) (act : Action) (actions : List Action) :
    w.run (act :: actions) = (w.step act).run actions := rfl

theorem run_append (w : Watch α) (before after : List Action) :
    w.run (before ++ after) = (w.run before).run after := List.foldl_append

/-- Watching changes nothing. -/
theorem step_shop (w : Watch α) (act : Action) :
    (w.step act).shop = (w.shop.step act).getD w.shop := by
  rw [step]
  cases w.shop.step act <;> rfl

theorem run_shop (w : Watch α) (actions : List Action) :
    (w.run actions).shop = w.shop.run actions := by
  induction actions generalizing w with
  | nil => rfl
  | cons act actions ih =>
    rw [run_cons, ih, step_shop]
    rfl

/-- What every move preserves, for producers that came with `items`. -/
structure Sound (size : Nat) (items : List α) (w : Watch α) : Prop where
  policy : w.shop.queue.policy = .block
  capacity : w.shop.queue.capacity = size
  bounded : w.shop.queue.length ≤ w.shop.queue.capacity
  awake : w.shop.Awake
  producers : w.shop.producers.length = items.length
  carries : ∀ (i : Nat) (a : α), w.shop.producers[i]?.bind Producer.item? = some a → items[i]? = some a
  fifo : w.removed.map Removal.item ++ w.shop.queue.items = w.accepted.map Prod.snd
  delivered : w.shop.delivered = w.removed.filterMap Removal.delivered?
  drained : w.shop.drained = w.removed.filterMap Removal.drained?
  once : (w.accepted.map Prod.fst).Nodup
  answered : ∀ (i : Nat) (a : α), (i, a) ∈ w.accepted ↔
    items[i]? = some a ∧ w.shop.producers[i]? = some (.done .accepted)

theorem ofItems_sound (capacity : Nat) (items : List α) :
    (ofItems capacity items).Sound (max capacity 1) items where
  policy := rfl
  capacity := rfl
  bounded := Nat.zero_le _
  awake := by
    intro _ hasleep
    simp [ofItems, Shop.ofItems, Producer.isAsleep] at hasleep
  producers := List.length_map _
  carries := by
    intro i a h
    rw [ofItems, Shop.ofItems, List.getElem?_map, Option.bind_map] at h
    exact (Option.bind_fun_some items[i]?).symm.trans h
  fifo := rfl
  delivered := rfl
  drained := rfl
  once := List.nodup_nil
  answered := by
    intro i a
    simp [ofItems, Shop.ofItems]

section Steps

variable {size : Nat} {items : List α} {w : Watch α}

/-- A possible move is one of those that `Shop.Moved` lists. -/
theorem step_cases (hs : w.Sound size items) (act : Action) :
    w.step act = w ∨ ∃ into out, w.shop.Moved act into out (w.step act).shop ∧
      (w.step act).accepted = w.accepted ++ into ∧ (w.step act).removed = w.removed ++ out := by
  rw [step]
  cases h : w.shop.step act with
  | none => exact .inl rfl
  | some s => exact .inr ⟨_, _, Shop.moved_of_step hs.policy h, rfl, rfl⟩

theorem step_sound (hs : w.Sound size items) (act : Action) : (w.step act).Sound size items := by
  rcases step_cases hs act with hsame | ⟨into, out, hm, hinto, hout⟩
  · rw [hsame]
    exact hs
  have hfifo : (w.step act).removed.map Removal.item ++ (w.step act).shop.queue.items =
      (w.step act).accepted.map Prod.snd := by
    rw [hinto, hout, List.map_append, List.map_append, List.append_assoc,
      Shop.items_of_moved hm, ← List.append_assoc, hs.fifo]
  have hdelivered : (w.step act).shop.delivered =
      (w.step act).removed.filterMap Removal.delivered? := by
    rw [Shop.delivered_of_moved hm, hs.delivered, hout, List.filterMap_append]
  have hdrained : (w.step act).shop.drained =
      (w.step act).removed.filterMap Removal.drained? := by
    rw [Shop.drained_of_moved hm, hs.drained, hout, List.filterMap_append]
  have hpolicy := (Shop.policy_of_moved hm).trans hs.policy
  have hcapacity := (Shop.capacity_of_moved hm).trans hs.capacity
  have hbounded := Shop.length_of_moved hm hs.bounded
  have hawake := Shop.awake_of_moved hm hs.awake
  rcases Shop.producers_of_moved hm with ⟨hnone, hlength, hkept⟩ | ⟨i, a, p, hone, hp, ha, hset⟩
  · rw [hnone, List.append_nil] at hinto
    refine ⟨hpolicy, hcapacity, hbounded, hawake, hlength.trans hs.producers, ?_, hfifo,
      hdelivered, hdrained, hinto ▸ hs.once, ?_⟩
    · intro j b hb
      exact hs.carries j b ((hkept j).2 b hb)
    · intro j b
      rw [hinto, hs.answered, (hkept j).1]
  · -- Producer `i` still had its item, so it has not been answered before.
    have hi : i < w.shop.producers.length := (List.getElem?_eq_some_iff.mp hp).1
    have hitem : items[i]? = some a := hs.carries i a (by rw [hp]; exact ha)
    have hfresh : w.shop.producers[i]? ≠ some (.done .accepted) := by
      rw [hp]
      rintro ⟨⟩
      cases ha
    have hlookup : ∀ j, (w.step act).shop.producers[j]? =
        if i = j then some (.done .accepted) else w.shop.producers[j]? := by
      intro j
      rw [hset, List.getElem?_set, if_pos hi]
    refine ⟨hpolicy, hcapacity, hbounded, hawake, ?_, ?_, hfifo, hdelivered, hdrained, ?_, ?_⟩
    · rw [hset, List.length_set, hs.producers]
    · intro j b hb
      rw [hlookup] at hb
      split at hb
      · cases hb
      · exact hs.carries j b hb
    · rw [hinto, hone, List.map_append]
      refine List.nodup_append.mpr ⟨hs.once, by simp, ?_⟩
      rintro j hj k hk rfl
      obtain ⟨⟨k, b⟩, hmem, rfl⟩ := List.mem_map.mp hj
      obtain rfl : k = i := by simpa using hk
      exact hfresh ((hs.answered k b).mp hmem).2
    · intro j b
      rw [hinto, hone, List.mem_append, hs.answered, hlookup, List.mem_singleton, Prod.mk.injEq]
      by_cases hj : i = j
      · subst hj
        simp [hfresh, hitem, eq_comm]
      · simp [hj, Ne.symm hj]

theorem run_sound (hs : w.Sound size items) (actions : List Action) :
    (w.run actions).Sound size items := by
  induction actions generalizing w with
  | nil => exact hs
  | cons act actions ih => exact ih (step_sound hs act)

/-- What every move keeps is kept by a run. -/
theorem run_keeps {P : Shop α → Prop} {actions : List Action} (hs : w.Sound size items)
    (hkeeps : ∀ {s t into out}, ∀ act ∈ actions, Shop.Moved s act into out t → P s → P t)
    (h : P w.shop) : P (w.run actions).shop := by
  induction actions generalizing w with
  | nil => exact h
  | cons act actions ih =>
    refine ih (step_sound hs act) (fun a ha => hkeeps a (List.mem_cons_of_mem act ha)) ?_
    rcases step_cases hs act with hsame | ⟨into, out, hm, -, -⟩
    · rwa [hsame]
    · exact hkeeps act List.mem_cons_self hm h

theorem run_open (hs : w.Sound size items) (hopen : w.shop.queue.isShutdown = false)
    {actions : List Action} (hnone : .close ∉ actions) :
    (w.run actions).shop.queue.isShutdown = false := by
  refine run_keeps (P := fun s => s.queue.isShutdown = false) hs ?_ hopen
  intro s t into out act hact hm
  refine Shop.not_isShutdown_of_moved hm ?_
  rintro rfl
  exact hnone hact

/-- Once a shutdown has been announced nobody sleeps, and nobody ever will. -/
theorem run_announced (hs : w.Sound size items) {before : List Action}
    (hclose : .close ∈ before) (after : List Action) :
    (w.run (before ++ .announce :: after)).shop.AllUp := by
  obtain ⟨early, late, rfl⟩ := List.append_of_mem hclose
  have hclosed := step_sound (run_sound hs early) .close
  have hdown : (((w.run early).step .close).run late).shop.queue.isShutdown = true :=
    run_keeps (P := fun s => s.queue.isShutdown = true) hclosed
      (fun _ _ hm => Shop.isShutdown_of_moved hm) rfl
  rw [run_append, run_append, run_cons, run_cons]
  have htold := step_sound (run_sound hclosed late) .announce
  refine (run_keeps (P := fun s => s.queue.isShutdown = true ∧ s.AllUp) htold ?_ ⟨hdown, ?_⟩).2
  · intro s t into out act _ hm h
    exact ⟨Shop.isShutdown_of_moved hm h.1, Shop.allUp_of_moved hm h.1 h.2⟩
  · exact Shop.allUp_iff_not_exists.mpr (Shop.not_exists_asleep_map_notify _)

end Steps

/-- No wake-up is lost, for every number of producers and every order of moves: the queue stays
within its capacity; while it is not shut down and somebody sleeps, the items and the woken
producers are no fewer than the places; after a shutdown nobody sleeps; and every accepted item is
accepted from one producer, once, and is delivered, drained or still there, in the order of
acceptance. -/
theorem run_wakes (capacity : Nat) (items : List α) (actions : List Action) :
    let w := (ofItems capacity items).run actions
    let s := (Shop.ofItems (.new capacity .block) items).run actions
    w.shop = s ∧ s.producers.length = items.length ∧
    s.queue.capacity = max capacity 1 ∧ s.queue.length ≤ s.queue.capacity ∧
    (.close ∉ actions → (∃ p ∈ s.producers, p.isAsleep = true) →
      s.queue.capacity ≤ s.queue.length + s.producers.countP Producer.isNotified) ∧
    (∀ before after, actions = before ++ .announce :: after → .close ∈ before →
      ∀ p ∈ s.producers, p.isAsleep = false) ∧
    w.removed.map Removal.item ++ s.queue.items = w.accepted.map Prod.snd ∧
    s.delivered = w.removed.filterMap Removal.delivered? ∧
    s.drained = w.removed.filterMap Removal.drained? ∧
    (w.accepted.map Prod.fst).Nodup ∧
    ∀ (i : Nat) (a : α), (i, a) ∈ w.accepted ↔
      items[i]? = some a ∧ s.producers[i]? = some (.done .accepted) := by
  intro w s
  have hstart := ofItems_sound capacity items
  have hs : w.Sound (max capacity 1) items := run_sound hstart actions
  have hshop : w.shop = s := run_shop _ actions
  rw [← hshop]
  refine ⟨rfl, hs.producers, hs.capacity, hs.bounded, ?_, ?_, hs.fifo, hs.delivered, hs.drained,
    hs.once, hs.answered⟩
  · intro hnone
    exact hs.awake (run_open hstart rfl hnone)
  · intro before after hactions hclose
    have hup := run_announced hstart hclose after
    rw [← hactions] at hup
    exact hup

/-- One place and three producers: 1 falls asleep, 0's item is taken and 1 is woken, the newcomer 2
takes the place, and 1 sleeps again. The next item taken wakes it again, and after a shutdown it is
up although it never got a place. -/
theorem run_wakes_newcomer :
    let race := [Action.attempt 0, .attempt 1, .dequeue 1, .attempt 2, .attempt 1]
    let s := (Shop.ofItems (.new 1 .block) ['a', 'b', 'c']).run race
    let closed := (Shop.ofItems (.new 1 .block) ['a', 'b', 'c']).run
      (race ++ [.close, .announce, .attempt 1])
    s.producers = [.done .accepted, .asleep 'b', .done .accepted] ∧
      1 ≤ s.queue.length + s.producers.countP Producer.isNotified ∧
      (∀ p ∈ closed.producers, p.isAsleep = false) ∧
      closed.producers = [.done .accepted, .done .shutdown, .done .accepted] := by
  intro race s closed
  have hrace := run_wakes 1 ['a', 'b', 'c'] race
  have hclosed := run_wakes 1 ['a', 'b', 'c'] (race ++ [.close, .announce, .attempt 1])
  have hcount := hrace.2.2.2.2.1 (by decide) ⟨.asleep 'b', by decide, rfl⟩
  have hup := hclosed.2.2.2.2.2.1 (race ++ [.close]) [.attempt 1] (by simp) (by simp)
  exact ⟨rfl, hcount, hup, rfl⟩

end Watch
end Queue
end Oscilloscope
