import Oscilloscope.Proofs.Settings.Keys

/-!
# Oscilloscope.Proofs.Settings.Defaults

What a text in one of the formats changes in the settings.

* `entries`: all keys of the settings, section by section.
* `Settings.base`: what the settings are for the keys that a document does not give.
* `parse_takes`: a document that gives valid values to any of the keys is accepted; the settings
  have these values and else those of the base.
* `parse_queue_section`: the base is not always the defaults.
-/

namespace Oscilloscope
namespace Settings

open Text (Document)

/-- Keys under one name. -/
def under {σ τ : Type} (names : List String) (name : String) (part : τ → σ)
    (keys : List (Key σ)) : List (Key τ) := keys.map (Key.under names name part)

def queueEntries (format : Format) : List (Key Queue.Options) :=
  under queueKeys "capacity" (·.capacity) [.whole count?] ++
  under queueKeys "policy" (·.policy) [.whole (choice? format Queue.Policy.ofName?)]

def workersEntries (format : Format) : List (Key Workers) :=
  under workersKeys "log_filter" (·.logFilter) [.whole text?] ++
  under workersKeys "idle" (·.idle) [.whole (idle? format)]

def channelCount? (d : Document) : Option UInt32 := (below? UInt32.size d).map UInt32.ofNat

def ingestEntries (format : Format) : List (Key Ingest) :=
  under ingestKeys "channel_count" (·.channelCount) [.whole channelCount?] ++
  under ingestKeys "sample_rate_hz" (·.sampleRate) [.whole real?] ++
  under ingestKeys "ring_capacity" (·.ringCapacity) [.whole count?] ++
  under ingestKeys "block_samples" (·.blockSamples) [.whole count?] ++
  under ingestKeys "queue" (·.queue) (queueEntries format)

def decimationEntries (format : Format) : List (Key Decimation) :=
  under decimationKeys "mode" (·.mode) [.whole (mode? format)] ++
  under decimationKeys "target_points" (·.targetPoints) [.whole count?] ++
  under decimationKeys "queue" (·.queue) (queueEntries format)

def visualizationEntries (format : Format) : List (Key Visualization) :=
  under visualizationKeys "display_points" (·.displayPoints) [.whole count?] ++
  under visualizationKeys "visible_time_span_s" (·.visibleSpan) [.whole real?] ++
  under visualizationKeys "debug_dump_dir" (·.dumpDirectory) [.whole path?] ++
  under visualizationKeys "queue" (·.queue) (queueEntries format)

def demoEntries : List (Key Demo) :=
  under demoKeys "duration_s" (·.duration) [.whole real?] ++
  under demoKeys "period_samples" (·.periodSamples) [.whole count?] ++
  under demoKeys "amplitude" (·.amplitude) [.whole sample?]

/-- The keys of the settings. -/
def entries (format : Format) : List (Key Settings) :=
  under sectionKeys "runtime" (·.workers) (workersEntries format) ++
  under sectionKeys "ingest" (·.ingest) (ingestEntries format) ++
  under sectionKeys "decimation" (·.decimation) (decimationEntries format) ++
  under sectionKeys "visualization" (·.visualization) (visualizationEntries format) ++
  under sectionKeys "demo" (·.demo) demoEntries

variable {format : Format}

theorem queue_fills : Fills format (queue? format) (fun _ => {}) (queueEntries format) := by
  intro d hvalid
  simp only [queueEntries, List.forall_mem_append] at hvalid ⊢
  obtain ⟨hcapacity, hpolicy⟩ := hvalid
  obtain ⟨fields, hfields, hlookup⟩ :=
    fields?_of_isSection (Key.isSection_of_under (hcapacity _ List.mem_cons_self))
  obtain ⟨capacity, hread₁, htakes₁⟩ :=
    (fills_whole _ _).field_of_const {} (hlookup _ (by decide)) hcapacity
  obtain ⟨policy, hread₂, htakes₂⟩ :=
    (fills_whole _ _).field_of_const {} (hlookup _ (by decide)) hpolicy
  refine ⟨{ capacity, policy }, ?_, htakes₁ _ _ rfl rfl, htakes₂ _ _ rfl rfl⟩
  simp only [queue?, Option.bind_eq_bind, Option.bind_eq_some_iff]
  exact ⟨fields, hfields, capacity, hread₁, policy, hread₂, rfl⟩

theorem workers_fills : Fills format (workers? format) (fun _ => {}) (workersEntries format) := by
  intro d hvalid
  simp only [workersEntries, List.forall_mem_append] at hvalid ⊢
  obtain ⟨hfilter, hidle⟩ := hvalid
  obtain ⟨fields, hfields, hlookup⟩ :=
    fields?_of_isSection (Key.isSection_of_under (hfilter _ List.mem_cons_self))
  obtain ⟨logFilter, hread₁, htakes₁⟩ :=
    (fills_whole _ _).field_of_const {} (hlookup _ (by decide)) hfilter
  obtain ⟨idle, hread₂, htakes₂⟩ :=
    (fills_whole _ _).field_of_const {} (hlookup _ (by decide)) hidle
  refine ⟨{ logFilter, idle }, ?_, htakes₁ _ _ rfl rfl, htakes₂ _ _ rfl rfl⟩
  simp only [workers?, Option.bind_eq_bind, Option.bind_eq_some_iff]
  exact ⟨fields, hfields, logFilter, hread₁, idle, hread₂, rfl⟩

theorem ingest_fills : Fills format (ingest? format) (fun _ => {}) (ingestEntries format) := by
  intro d hvalid
  simp only [ingestEntries, List.forall_mem_append] at hvalid ⊢
  obtain ⟨⟨⟨⟨hchannels, hrate⟩, hring⟩, hblock⟩, hqueue⟩ := hvalid
  obtain ⟨fields, hfields, hlookup⟩ :=
    fields?_of_isSection (Key.isSection_of_under (hchannels _ List.mem_cons_self))
  obtain ⟨channelCount, hread₁, htakes₁⟩ :=
    (fills_whole _ _).field_of_const {} (hlookup _ (by decide)) hchannels
  obtain ⟨sampleRate, hread₂, htakes₂⟩ :=
    (fills_whole _ _).field_of_const {} (hlookup _ (by decide)) hrate
  obtain ⟨ringCapacity, hread₃, htakes₃⟩ :=
    (fills_whole _ _).field_of_const {} (hlookup _ (by decide)) hring
  obtain ⟨blockSamples, hread₄, htakes₄⟩ :=
    (fills_whole _ _).field_of_const {} (hlookup _ (by decide)) hblock
  obtain ⟨queue, hread₅, htakes₅⟩ :=
    queue_fills.field_of_const {} (hlookup _ (by decide)) hqueue
  refine ⟨{ channelCount, sampleRate, ringCapacity, blockSamples, queue }, ?_,
    ⟨⟨⟨htakes₁ _ _ rfl rfl, htakes₂ _ _ rfl rfl⟩, htakes₃ _ _ rfl rfl⟩, htakes₄ _ _ rfl rfl⟩,
    htakes₅ _ _ rfl rfl⟩
  simp only [ingest?, Option.bind_eq_bind, Option.bind_eq_some_iff]
  exact ⟨fields, hfields, channelCount, hread₁, sampleRate, hread₂, ringCapacity, hread₃,
    blockSamples, hread₄, queue, hread₅, rfl⟩

theorem decimation_fills :
    Fills format (decimation? format) (fun _ => {}) (decimationEntries format) := by
  intro d hvalid
  simp only [decimationEntries, List.forall_mem_append] at hvalid ⊢
  obtain ⟨⟨hmode, htarget⟩, hqueue⟩ := hvalid
  obtain ⟨fields, hfields, hlookup⟩ :=
    fields?_of_isSection (Key.isSection_of_under (hmode _ List.mem_cons_self))
  obtain ⟨mode, hread₁, htakes₁⟩ :=
    (fills_whole _ _).field_of_const {} (hlookup _ (by decide)) hmode
  obtain ⟨targetPoints, hread₂, htakes₂⟩ :=
    (fills_whole _ _).field_of_const {} (hlookup _ (by decide)) htarget
  obtain ⟨queue, hread₃, htakes₃⟩ :=
    queue_fills.field_of_const {} (hlookup _ (by decide)) hqueue
  refine ⟨{ mode, targetPoints, queue }, ?_, ⟨htakes₁ _ _ rfl rfl, htakes₂ _ _ rfl rfl⟩,
    htakes₃ _ _ rfl rfl⟩
  simp only [decimation?, Option.bind_eq_bind, Option.bind_eq_some_iff]
  exact ⟨fields, hfields, mode, hread₁, targetPoints, hread₂, queue, hread₃, rfl⟩

/-- Where the keys of a visualization start. A queue section that is there at all starts from the
defaults of a queue, not from those of the visualization. -/
def Visualization.base (d : Document) : Visualization where
  queue :=
    if (find? [(visualizationKeys, "queue")] d).isSome then {} else ({} : Visualization).queue

theorem Visualization.base_queue (d : Document) :
    (Visualization.base d).queue =
      ((given? visualizationKeys "queue" d).map fun _ => {}).getD ({} : Visualization).queue := by
  rw [Visualization.base, find?]
  cases given? visualizationKeys "queue" d <;> rfl

theorem visualization_fills :
    Fills format (visualization? format) Visualization.base (visualizationEntries format) := by
  intro d hvalid
  simp only [visualizationEntries, List.forall_mem_append] at hvalid ⊢
  obtain ⟨⟨⟨hpoints, hspan⟩, hdump⟩, hqueue⟩ := hvalid
  obtain ⟨fields, hfields, hlookup⟩ :=
    fields?_of_isSection (Key.isSection_of_under (hpoints _ List.mem_cons_self))
  obtain ⟨displayPoints, hread₁, htakes₁⟩ :=
    (fills_whole _ _).field_of_const {} (hlookup _ (by decide)) hpoints
  obtain ⟨visibleSpan, hread₂, htakes₂⟩ :=
    (fills_whole _ _).field_of_const {} (hlookup _ (by decide)) hspan
  obtain ⟨dumpDirectory, hread₃, htakes₃⟩ :=
    (fills_whole _ _).field_of_const {} (hlookup _ (by decide)) hdump
  -- Here the absent queue and the base of a queue differ.
  obtain ⟨queue, hread₄, htakes₄⟩ :=
    queue_fills.field _ ({} : Visualization).queue (hlookup _ (by decide)) hqueue
  refine ⟨{ displayPoints, visibleSpan, dumpDirectory, queue }, ?_,
    ⟨⟨htakes₁ _ _ rfl rfl, htakes₂ _ _ rfl rfl⟩, htakes₃ _ _ rfl rfl⟩,
    htakes₄ _ _ rfl (Visualization.base_queue d)⟩
  simp only [visualization?, Option.bind_eq_bind, Option.bind_eq_some_iff]
  exact ⟨fields, hfields, displayPoints, hread₁, visibleSpan, hread₂, dumpDirectory, hread₃,
    queue, hread₄, rfl⟩

theorem demo_fills : Fills format (demo? format) (fun _ => {}) demoEntries := by
  intro d hvalid
  simp only [demoEntries, List.forall_mem_append] at hvalid ⊢
  obtain ⟨⟨hduration, hperiod⟩, hamplitude⟩ := hvalid
  obtain ⟨fields, hfields, hlookup⟩ :=
    fields?_of_isSection (Key.isSection_of_under (hduration _ List.mem_cons_self))
  obtain ⟨duration, hread₁, htakes₁⟩ :=
    (fills_whole _ _).field_of_const {} (hlookup _ (by decide)) hduration
  obtain ⟨periodSamples, hread₂, htakes₂⟩ :=
    (fills_whole _ _).field_of_const {} (hlookup _ (by decide)) hperiod
  obtain ⟨amplitude, hread₃, htakes₃⟩ :=
    (fills_whole _ _).field_of_const {} (hlookup _ (by decide)) hamplitude
  refine ⟨{ duration, periodSamples, amplitude }, ?_, ⟨htakes₁ _ _ rfl rfl, htakes₂ _ _ rfl rfl⟩,
    htakes₃ _ _ rfl rfl⟩
  simp only [demo?, Option.bind_eq_bind, Option.bind_eq_some_iff]
  exact ⟨fields, hfields, duration, hread₁, periodSamples, hread₂, amplitude, hread₃, rfl⟩

/-- Where the keys of the settings start: at the defaults, apart from the queue of a visualization
that has a queue section. -/
def base (d : Document) : Settings where
  visualization.queue :=
    if (find? [(sectionKeys, "visualization"), (visualizationKeys, "queue")] d).isSome then {}
    else ({} : Visualization).queue

theorem base_visualization (d : Document) :
    (base d).visualization =
      ((given? sectionKeys "visualization" d).map Visualization.base).getD {} := by
  rw [base, find?]
  cases given? sectionKeys "visualization" d <;> rfl

theorem ofDocument?_fills : Fills format (ofDocument? format) base (entries format) := by
  intro d hvalid
  simp only [entries, List.forall_mem_append] at hvalid ⊢
  obtain ⟨⟨⟨⟨hworkers, hingest⟩, hdecimation⟩, hvisualization⟩, hdemo⟩ := hvalid
  obtain ⟨fields, hfields, hlookup⟩ :=
    fields?_of_isSection (Key.isSection_of_under (hworkers _ List.mem_cons_self))
  obtain ⟨workers, hread₁, htakes₁⟩ :=
    workers_fills.field_of_const {} (hlookup _ (by decide)) hworkers
  obtain ⟨ingest, hread₂, htakes₂⟩ :=
    ingest_fills.field_of_const {} (hlookup _ (by decide)) hingest
  obtain ⟨decimation, hread₃, htakes₃⟩ :=
    decimation_fills.field_of_const {} (hlookup _ (by decide)) hdecimation
  obtain ⟨visualization, hread₄, htakes₄⟩ :=
    visualization_fills.field _ {} (hlookup _ (by decide)) hvisualization
  obtain ⟨demo, hread₅, htakes₅⟩ :=
    demo_fills.field_of_const {} (hlookup _ (by decide)) hdemo
  refine ⟨{ workers, ingest, decimation, visualization, demo }, ?_,
    ⟨⟨⟨htakes₁ _ _ rfl rfl, htakes₂ _ _ rfl rfl⟩, htakes₃ _ _ rfl rfl⟩,
      htakes₄ _ _ rfl (base_visualization d)⟩, htakes₅ _ _ rfl rfl⟩
  simp only [ofDocument?, Option.bind_eq_bind, Option.bind_eq_some_iff]
  exact ⟨fields, hfields, workers, hread₁, ingest, hread₂, decimation, hread₃, visualization,
    hread₄, demo, hread₅, rfl⟩

/-! ## The keys are complete -/

/-- Keys that leave nothing of a structure open. -/
def Complete {σ : Type} (keys : List (Key σ)) : Prop :=
  ∀ s s' : σ, (∀ key ∈ keys, key.get s = key.get s') → s = s'

theorem complete_whole {α : Type} (read : Document → Option α) : Complete [.whole read] := by
  intro s s' h
  exact h _ List.mem_cons_self

theorem Complete.part {σ τ : Type} {keys : List (Key σ)} (h : Complete keys) {names : List String}
    {name : String} {part : τ → σ} {t t' : τ}
    (hsame : ∀ key ∈ under names name part keys, key.get t = key.get t') : part t = part t' := by
  rw [under, List.forall_mem_map] at hsame
  exact h _ _ hsame

theorem queue_complete : Complete (queueEntries format) := by
  intro s s' h
  simp only [queueEntries, List.forall_mem_append] at h
  cases s
  cases s'
  rw [Queue.Options.mk.injEq]
  exact ⟨(complete_whole _).part h.1, (complete_whole _).part h.2⟩

theorem workers_complete : Complete (workersEntries format) := by
  intro s s' h
  simp only [workersEntries, List.forall_mem_append] at h
  cases s
  cases s'
  rw [Workers.mk.injEq]
  exact ⟨(complete_whole _).part h.1, (complete_whole _).part h.2⟩

theorem ingest_complete : Complete (ingestEntries format) := by
  intro s s' h
  simp only [ingestEntries, List.forall_mem_append] at h
  obtain ⟨⟨⟨⟨hchannels, hrate⟩, hring⟩, hblock⟩, hqueue⟩ := h
  cases s
  cases s'
  rw [Ingest.mk.injEq]
  exact ⟨(complete_whole _).part hchannels, (complete_whole _).part hrate,
    (complete_whole _).part hring, (complete_whole _).part hblock, queue_complete.part hqueue⟩

theorem decimation_complete : Complete (decimationEntries format) := by
  intro s s' h
  simp only [decimationEntries, List.forall_mem_append] at h
  obtain ⟨⟨hmode, htarget⟩, hqueue⟩ := h
  cases s
  cases s'
  rw [Decimation.mk.injEq]
  exact ⟨(complete_whole _).part hmode, (complete_whole _).part htarget, queue_complete.part hqueue⟩

theorem visualization_complete : Complete (visualizationEntries format) := by
  intro s s' h
  simp only [visualizationEntries, List.forall_mem_append] at h
  obtain ⟨⟨⟨hpoints, hspan⟩, hdump⟩, hqueue⟩ := h
  cases s
  cases s'
  rw [Visualization.mk.injEq]
  exact ⟨(complete_whole _).part hpoints, (complete_whole _).part hspan,
    (complete_whole _).part hdump, queue_complete.part hqueue⟩

theorem demo_complete : Complete demoEntries := by
  intro s s' h
  simp only [demoEntries, List.forall_mem_append] at h
  obtain ⟨⟨hduration, hperiod⟩, hamplitude⟩ := h
  cases s
  cases s'
  rw [Demo.mk.injEq]
  exact ⟨(complete_whole _).part hduration, (complete_whole _).part hperiod,
    (complete_whole _).part hamplitude⟩

theorem entries_complete : Complete (entries format) := by
  intro s s' h
  simp only [entries, List.forall_mem_append] at h
  obtain ⟨⟨⟨⟨hworkers, hingest⟩, hdecimation⟩, hvisualization⟩, hdemo⟩ := h
  cases s
  cases s'
  rw [Settings.mk.injEq]
  exact ⟨workers_complete.part hworkers, ingest_complete.part hingest,
    decimation_complete.part hdecimation, visualization_complete.part hvisualization,
    demo_complete.part hdemo⟩

/-! ## Texts -/

/-- **A text changes the keys that it gives.** If it gives valid values to some keys, in sections of
any nesting, it is accepted, and every key has the value given, or the one from the base. That
settles the settings. -/
theorem parse_takes (format : Format) {text : String} {d : Document}
    (hread : format.read text = some d)
    (hvalid : ∀ key ∈ entries format, key.isValid format d = true) :
    ∃ s, parse format text = some s ∧ (∀ key ∈ entries format, key.Takes d s (base d)) ∧
      ∀ s', (∀ key ∈ entries format, key.get s' = key.get s) → s' = s := by
  obtain ⟨s, hs, htakes⟩ := ofDocument?_fills d hvalid
  refine ⟨s, ?_, htakes, fun s' hsame => entries_complete s' s hsame⟩
  rw [parse, hread, Option.bind_some]
  exact hs

/-- Two sections, and a name that no section has. -/
theorem parse_takes_nested :
    let text := "[decimation]\nmode = \"Lttb\"\nspeed = 3\n[ingest.queue]\ncapacity = 8\n"
    let s : Settings := { decimation.mode := .triangle, ingest.queue.capacity := 8 }
    ∃ d, Format.toml.read text = some d ∧ (∀ key ∈ entries .toml, key.isValid .toml d = true) ∧
      parse .toml text = some s ∧ ∀ key ∈ entries .toml, key.Takes d s (base d) := by
  intro text s
  have hparse : parse .toml text = some s := by decide +kernel
  have hsome : (Format.toml.read text).isSome = true := by decide +kernel
  have hall : (Format.toml.read text).map (fun d => (entries .toml).all (·.isValid .toml d)) =
      some true := by decide +kernel
  obtain ⟨d, hread⟩ := Option.isSome_iff_exists.mp hsome
  rw [hread, Option.map_some, Option.some_inj, List.all_eq_true] at hall
  obtain ⟨s', hs', htakes, -⟩ := parse_takes .toml hread hall
  rw [hparse, Option.some_inj] at hs'
  exact ⟨d, hread, hall, hparse, hs' ▸ htakes⟩

/-- A queue section without a capacity changes the capacity of the queue of the visualization. -/
theorem parse_queue_section :
    let text := "[visualization.queue]\npolicy = \"Block\"\n"
    let s : Settings := { visualization.queue := { capacity := 64, policy := .block } }
    ({} : Settings).visualization.queue.capacity = 4 ∧
      ∃ d, Format.toml.read text = some d ∧ (∀ key ∈ entries .toml, key.isValid .toml d = true) ∧
        parse .toml text = some s ∧ ¬∀ key ∈ entries .toml, key.Takes d s {} := by
  intro text s
  have hsome : (Format.toml.read text).isSome = true := by decide +kernel
  have hall : (Format.toml.read text).map (fun d => (entries .toml).all (·.isValid .toml d)) =
      some true := by decide +kernel
  have hnone : (Format.toml.read text).map (fun d => (find? [(sectionKeys, "visualization"),
      (visualizationKeys, "queue"), (queueKeys, "capacity")] d).isNone) = some true := by
    decide +kernel
  obtain ⟨d, hread⟩ := Option.isSome_iff_exists.mp hsome
  rw [hread, Option.map_some, Option.some_inj] at hall hnone
  rw [List.all_eq_true] at hall
  refine ⟨rfl, d, hread, hall, by decide +kernel, ?_⟩
  intro htakes
  simp only [entries, visualizationEntries, queueEntries, under, List.map_append,
    List.forall_mem_append] at htakes
  obtain ⟨-, habsent⟩ := htakes.1.2.2.1 _ List.mem_cons_self
  have hsame : s.visualization.queue.capacity = ({} : Settings).visualization.queue.capacity :=
    habsent (Option.isNone_iff_eq_none.mp hnone)
  exact absurd hsame (by decide)

end Settings
end Oscilloscope
