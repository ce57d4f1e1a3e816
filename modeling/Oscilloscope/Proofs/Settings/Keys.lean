import Oscilloscope.Settings.Schema

/-!
# Oscilloscope.Proofs.Settings.Keys

What a document gives for the keys of a structure, and what a reader makes of it.

* `Key`: where a value stands in a document, how it is read, and where it goes. `Key.isValid`: the
  sections on the way to the key are well formed, and what stands there can be read.
* `Key.Takes`: a result has what the document gives for a key, or the same as some base.
* `Fills`: a reader takes every key that is given, and everything else from a base.
* `Fills.field`: so does the reader of a whole that has the structure as one of its fields.
-/

namespace Oscilloscope
namespace Settings

open Text (Document)

/-! ## Sections -/

/-- What a section with the keys `names` gives for one of them: by name in a table, by place in a
list. -/
def given? (names : List String) (name : String) : Document → Option Document
  | .table _ entries => entries.lookup name
  | .list items => (names.zip items).lookup name
  | _ => none

/-- A table in which no key of the section occurs twice, or a list of values. -/
def isSection (format : Format) (names : List String) : Document → Bool
  | .table _ entries => names.all fun name => (entries.map (·.1)).count name ≤ 1
  | .list items => format != .json || decide (items.length ≤ names.length)
  | _ => false

theorem lookup_filter {entries : List (String × Document)} {names : List String} {name : String}
    (hname : name ∈ names) :
    (entries.filter fun e => e.1 ∈ names).lookup name = entries.lookup name := by
  induction entries with
  | nil => rfl
  | cons entry rest ih =>
    obtain ⟨here, d⟩ := entry
    by_cases hhere : name = here
    · subst hhere
      rw [List.filter_cons_of_pos (by simpa using hname), List.lookup_cons_self,
        List.lookup_cons_self]
    · have hne : (name == here) = false := beq_eq_false_iff_ne.mpr hhere
      rw [List.lookup_cons, hne, ← ih, List.filter_cons]
      split
      · rw [List.lookup_cons, hne]
      · rfl

theorem nodup_known {entries : List (String × Document)} {names : List String}
    (honce : ∀ name ∈ names, (entries.map (·.1)).count name ≤ 1) :
    ((entries.filter fun e => e.1 ∈ names).map (·.1)).Nodup := by
  rw [List.nodup_iff_count]
  intro name
  by_cases hname : name ∈ names
  · exact Nat.le_trans ((List.filter_sublist.map _).count_le name) (honce name hname)
  · have hnone : name ∉ (entries.filter fun e => e.1 ∈ names).map (·.1) := by
      intro hmem
      obtain ⟨entry, hentry, rfl⟩ := List.mem_map.mp hmem
      exact hname (by simpa using (List.mem_filter.mp hentry).2)
    rw [List.count_eq_zero.mpr hnone]
    exact Nat.zero_le 1

theorem fields?_of_isSection {format : Format} {names : List String} {d : Document}
    (h : isSection format names d = true) :
    ∃ fields, fields? format names d = some fields ∧
      ∀ name ∈ names, fields.lookup name = given? names name d := by
  cases d with
  | table closed entries =>
    have honce : ∀ name ∈ names, (entries.map (·.1)).count name ≤ 1 := by
      simpa [isSection] using h
    exact ⟨_, if_pos (nodup_known honce), fun name hname => lookup_filter hname⟩
  | list items =>
    have hshort : ¬(format = .json ∧ names.length < items.length) := by
      rintro ⟨rfl, hlong⟩
      have hle : items.length ≤ names.length := by simpa [isSection] using h
      omega
    exact ⟨_, if_neg hshort, fun name _ => rfl⟩
  | _ => cases h

/-! ## Keys -/

/-- A key of a structure. -/
structure Key (σ : Type) where
  Value : Type
  /-- The sections on the way, each with the names of its keys, and the name to look for. -/
  path : List (List String × String)
  read : Document → Option Value
  get : σ → Value

/-- What stands at the end of a path. -/
def find? : List (List String × String) → Document → Option Document
  | [], d => some d
  | (names, name) :: rest, d => (given? names name d).bind (find? rest)

/-- Whether the sections along a path are well formed, as far as they are there, and what stands at
the end can be read. -/
def isValidAt (format : Format) {α : Type} (read : Document → Option α) :
    List (List String × String) → Document → Bool
  | [], d => (read d).isSome
  | (names, name) :: rest, d =>
    isSection format names d &&
      match given? names name d with
      | none => true
      | some inner => isValidAt format read rest inner

namespace Key

variable {σ τ : Type}

def isValid (format : Format) (key : Key σ) (d : Document) : Bool :=
  isValidAt format key.read key.path d

/-- For this key, `s` has what the document gives, and if it gives nothing, the same as `base`. -/
def Takes (key : Key σ) (d : Document) (s base : σ) : Prop :=
  (∀ v, find? key.path d = some v → key.read v = some (key.get s)) ∧
    (find? key.path d = none → key.get s = key.get base)

/-- A value that fills its place alone. -/
def whole {α : Type} (read : Document → Option α) : Key α := ⟨α, [], read, id⟩

/-- The key of a part, in a whole that has the part under `name`. -/
def under (names : List String) (name : String) (part : τ → σ) (key : Key σ) : Key τ where
  Value := key.Value
  path := (names, name) :: key.path
  read := key.read
  get := fun t => key.get (part t)

variable {format : Format} {names : List String} {name : String} {part : τ → σ} {key : Key σ}
  {d : Document}

theorem isSection_of_under (h : (key.under names name part).isValid format d = true) :
    isSection format names d = true := (Bool.and_eq_true_iff.mp h).1

theorem isValid_of_under {inner : Document}
    (h : (key.under names name part).isValid format d = true)
    (hgiven : given? names name d = some inner) : key.isValid format inner = true := by
  have hinner := (Bool.and_eq_true_iff.mp h).2
  simp only [under, hgiven] at hinner
  exact hinner

theorem takes_under_of_none {t base : τ} (hgiven : given? names name d = none)
    (hsame : part t = part base) : (key.under names name part).Takes d t base := by
  have hfind : find? (key.under names name part).path d = none := by
    simp only [under, find?, hgiven, Option.bind_none]
  refine ⟨?_, fun _ => congrArg key.get hsame⟩
  intro v hv
  rw [hfind] at hv
  cases hv

theorem takes_under_of_some {inner : Document} {t base : τ}
    (hgiven : given? names name d = some inner) (h : key.Takes inner (part t) (part base)) :
    (key.under names name part).Takes d t base := by
  have hfind : find? (key.under names name part).path d = find? key.path inner := by
    simp only [under, find?, hgiven, Option.bind_some]
  rw [Takes, hfind]
  exact h

end Key

/-! ## Readers -/

section Fills

variable {σ τ : Type} {format : Format} {parser : Document → Option σ} {base : Document → σ}
  {keys : List (Key σ)}

/-- From every document that is valid for the keys, the reader makes a result that takes each of
them, on the base that belongs to the document. -/
def Fills (format : Format) (parser : Document → Option σ) (base : Document → σ)
    (keys : List (Key σ)) : Prop :=
  ∀ d, (∀ key ∈ keys, key.isValid format d = true) →
    ∃ s, parser d = some s ∧ ∀ key ∈ keys, key.Takes d s (base d)

theorem fills_whole (read : Document → Option σ) (base : Document → σ) :
    Fills format read base [.whole read] := by
  intro d hvalid
  obtain ⟨s, hs⟩ := Option.isSome_iff_exists.mp (hvalid _ List.mem_cons_self)
  refine ⟨s, hs, ?_⟩
  intro key hkey
  rw [List.mem_singleton.mp hkey]
  constructor
  · rintro v ⟨⟩
    exact hs
  · intro hnone
    cases hnone

/-- A field with several keys of its own. An absent field is filled as a whole; one that is there
starts from the base of what stands there. -/
theorem Fills.field (h : Fills format parser base keys) {names : List String} {name : String}
    {d : Document} {fields : List (String × Document)} (part : τ → σ) (absent : σ)
    (hlookup : fields.lookup name = given? names name d)
    (hvalid : ∀ key ∈ keys.map (Key.under names name part), key.isValid format d = true) :
    ∃ s, Settings.field fields name parser absent = some s ∧
      ∀ t w : τ, part t = s → part w = ((given? names name d).map base).getD absent →
        ∀ key ∈ keys.map (Key.under names name part), key.Takes d t w := by
  rw [List.forall_mem_map] at hvalid
  rw [Settings.field, hlookup]
  cases hgiven : given? names name d with
  | none =>
    refine ⟨absent, rfl, ?_⟩
    intro t w ht hw
    rw [List.forall_mem_map]
    intro key _
    exact Key.takes_under_of_none hgiven (ht.trans hw.symm)
  | some inner =>
    obtain ⟨s, hs, htakes⟩ := h inner fun key hkey => Key.isValid_of_under (hvalid key hkey) hgiven
    refine ⟨s, hs, ?_⟩
    intro t w ht hw
    rw [List.forall_mem_map]
    intro key hkey
    refine Key.takes_under_of_some hgiven ?_
    rw [ht, hw]
    exact htakes key hkey

/-- The same where an absent field is what the base of the field is anyway. -/
theorem Fills.field_of_const {part : τ → σ} (whole : τ)
    (h : Fills format parser (fun _ => part whole) keys) {names : List String} {name : String}
    {d : Document} {fields : List (String × Document)}
    (hlookup : fields.lookup name = given? names name d)
    (hvalid : ∀ key ∈ keys.map (Key.under names name part), key.isValid format d = true) :
    ∃ s, Settings.field fields name parser (part whole) = some s ∧
      ∀ t w, part t = s → part w = part whole →
        ∀ key ∈ keys.map (Key.under names name part), key.Takes d t w := by
  obtain ⟨s, hs, htakes⟩ := h.field part (part whole) hlookup hvalid
  refine ⟨s, hs, ?_⟩
  intro t w ht hw
  refine htakes t w ht (hw.trans ?_)
  cases given? names name d <;> rfl

end Fills

end Settings
end Oscilloscope
