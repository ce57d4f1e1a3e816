import Oscilloscope.Proofs.Double.Sign
import Oscilloscope.Proofs.Envelope.Tolerance
import Oscilloscope.Proofs.Frame.Channels
import Oscilloscope.Stage.EnvelopeCheck

/-!
# Oscilloscope.Proofs.Envelope.SelfCheck

The bucket extremes of a periodic signal pass the check of that signal.

* `Verifier.Sound`: what is remembered is the window set of the installed period. Every operation
  keeps this, and a report depends on nothing else that is remembered
  (`Verifier.Sound.count_report`).
* `Verifier.InRange`: the numbers of a check are indices, and it does not abort.
  `Verifier.verify_cases` is what such a check does.
* `Verifier.Expects`: the windows of a check have the extremes of all buckets that may come.
* `Verifier.verify_expected`, `Verifier.verify_minMax`: then all pairs of the extremes of a signal
  match, however its samples fall into buckets.
* `EnvelopeCheck.check_expected`, `EnvelopeCheck.check_minMax`: the same for all channels of a
  frame, each with a phase of its own.
* `self_check`: both, for every verifier and every stage, whatever has been checked before.
-/

namespace Oscilloscope
namespace Envelope

open Decimation

/-! ## Pairs -/

theorem pairs_flatMap {β : Type} (f : β → Sample × Sample) (bs : List β) :
    pairs (bs.flatMap fun b => [(f b).1, (f b).2]) = bs.map f := by
  induction bs with
  | nil => rfl
  | cons b bs ih =>
    rw [List.flatMap_cons, List.map_cons, ← ih]
    rfl

theorem pairs_minMax {samples : List Sample} {buckets : Nat} (hpos : 0 < buckets)
    (hle : buckets ≤ samples.length) :
    pairs (minMax samples buckets) =
      (List.range buckets).map fun b => extremes (bucketOf samples buckets b) := by
  rw [minMax_eq hpos hle, pairs_flatMap fun b => extremes (bucketOf samples buckets b)]

/-- A bucket of a periodic signal is a window of it. -/
theorem bucketOf_repeated (period : List Sample) (phase : Nat) {n buckets bucket : Nat}
    (hb : bucket < buckets) (hn : n < indexLimit) :
    ∃ start, bucketOf (repeated period phase n) buckets bucket =
      repeated period start (bucketRange bucket n buckets).length := by
  have hstop : (bucket + 1) * n / buckets ≤ n := stop_le hb
  have hstart := start_le_stop bucket n buckets
  refine ⟨phase + (bucketRange bucket n buckets).start, ?_⟩
  rw [bucketOf, of_toArray, length_repeated, drop_take_repeated]
  simp only [IndexRange.length, bucketRange_eq hb hn]
  omega

/-! ## Reports -/

theorem isSkipped_ofCount (total matched : Nat) :
    (Report.ofCount total matched).isSkipped = false := by
  have hrate := not_lt_zero (unsigned_div (unsigned_ofNat matched) (unsigned_ofNat total))
  exact decide_eq_false hrate

/-! ## Remembered sets -/

theorem lookup_cons_of_ne {w w' : Nat} (hne : w ≠ w') (keys : Array UInt32)
    (rest : List (Nat × Array UInt32)) : ((w', keys) :: rest).lookup w = rest.lookup w := by
  rw [List.lookup_cons, beq_false_of_ne hne]

theorem lookup_insertSet {cache : List (Nat × Array UInt32)} {window : Nat} (keys : Array UInt32)
    (habsent : cache.lookup window = none) (w : Nat) :
    (insertSet window keys cache).lookup w = if w = window then some keys else cache.lookup w := by
  induction cache with
  | nil =>
    rw [insertSet]
    by_cases hw : w = window
    · rw [if_pos hw, hw, List.lookup_cons_self]
    · rw [if_neg hw, lookup_cons_of_ne hw]
  | cons e rest ih =>
    obtain ⟨w', keys'⟩ := e
    have hne : window ≠ w' := by
      rintro rfl
      rw [List.lookup_cons_self] at habsent
      cases habsent
    rw [lookup_cons_of_ne hne] at habsent
    rw [insertSet]
    split
    · by_cases hw : w = window
      · rw [if_pos hw, hw, List.lookup_cons_self]
      · rw [if_neg hw, lookup_cons_of_ne hw]
    · by_cases hw : w = w'
      · rw [if_neg (fun he => hne (he.symm.trans hw)), hw, List.lookup_cons_self,
          List.lookup_cons_self]
      · rw [lookup_cons_of_ne hw, lookup_cons_of_ne hw, ih habsent]

namespace Verifier

/-- Every set that is remembered is the window set of the installed period. -/
def Sound (v : Verifier) : Prop :=
  ∀ window keys, v.cache.lookup window = some keys → keys = (windowSet v.period window).toArray

variable {v : Verifier}

theorem sound_setPeriod (v : Verifier) (period : List Sample) : (v.setPeriod period).Sound := by
  intro window keys h
  cases h

@[simp] theorem period_setPeriod (v : Verifier) (period : List Sample) :
    (v.setPeriod period).period = period := rfl

@[simp] theorem period_ensure (v : Verifier) (window : Nat) :
    (v.ensure window).period = v.period := by
  rw [ensure]
  split
  · rfl
  · rfl

@[simp] theorem tolerance_ensure (v : Verifier) (window : Nat) :
    (v.ensure window).tolerance = v.tolerance := by
  rw [ensure]
  split
  · rfl
  · rfl

theorem lookup_ensure (v : Verifier) (window w : Nat) :
    (v.ensure window).cache.lookup w =
      if w = window ∧ v.cache.lookup window = none then
        some (windowSet v.period window).toArray
      else v.cache.lookup w := by
  rw [ensure]
  cases hknown : v.cache.lookup window with
  | some keys => simp
  | none =>
    simp only [Option.isSome_none, Bool.false_eq_true, if_false, and_true]
    exact lookup_insertSet _ hknown w

theorem Sound.ensure (h : v.Sound) (window : Nat) : (v.ensure window).Sound := by
  intro w keys hlookup
  rw [lookup_ensure] at hlookup
  rw [period_ensure]
  split at hlookup
  · rename_i hnew
    cases hlookup
    rw [hnew.1]
  · exact h w keys hlookup

theorem Sound.keysFor (h : v.Sound) {window : Nat} (hknown : (v.cache.lookup window).isSome) :
    v.keysFor window = (windowSet v.period window).toArray := by
  obtain ⟨keys, hkeys⟩ := Option.isSome_iff_exists.mp hknown
  rw [Verifier.keysFor, hkeys, Option.getD_some, h window keys hkeys]

theorem isSome_lookup_ensure (v : Verifier) {window w : Nat}
    (h : w = window ∨ (v.cache.lookup w).isSome) :
    ((v.ensure window).cache.lookup w).isSome := by
  rw [lookup_ensure]
  split
  · rfl
  · rename_i hnot
    rcases h with rfl | h
    · rw [not_and] at hnot
      exact Option.isSome_iff_ne_none.mpr (hnot rfl)
    · exact h

theorem Sound.count (h : v.Sound) (decimated : List Sample) (buckets base next : Nat) :
    (v.count decimated buckets base next).2.Sound :=
  (h.ensure base).ensure next

/-- A report is made from the window sets of the period, whether or not they were known before. -/
theorem Sound.count_report (h : v.Sound) (decimated : List Sample) (buckets base next : Nat) :
    (v.count decimated buckets base next).1 =
      .ofCount buckets (((pairs decimated).take buckets).countP fun p =>
        withinTolerance v.tolerance (windowSet v.period base).toArray
          (windowSet v.period next).toArray p.1 p.2) := by
  -- Both sets are there, the first one also after the second has been added.
  have hshorter := ((h.ensure base).ensure next).keysFor
    (isSome_lookup_ensure _ (.inr (isSome_lookup_ensure v (.inl rfl))))
  have hlonger := ((h.ensure base).ensure next).keysFor
    (isSome_lookup_ensure (v.ensure base) (.inl rfl))
  simp only [Verifier.count, hshorter, hlonger, period_ensure, tolerance_ensure]

/-! ## Checks -/

/-- Twice the buckets and the longer of the two windows are indices. -/
structure InRange (buckets raw : Nat) : Prop where
  double : buckets * 2 < indexLimit
  longer : max (raw / buckets) 1 + 1 < indexLimit

theorem inRange_of_le {buckets raw : Nat} (hle : buckets ≤ raw) (hraw : raw * 2 < indexLimit) :
    InRange buckets raw := by
  have hdiv : raw / buckets ≤ raw := Nat.div_le_self raw buckets
  have hlimit : indexLimit = 18446744073709551616 := rfl
  exact ⟨by omega, by omega⟩

variable {decimated : List Sample} {buckets raw : Nat}

/-- There is something to check. -/
structure Asks (v : Verifier) (decimated : List Sample) (buckets raw : Nat) : Prop where
  ready : v.period ≠ []
  bucketed : buckets ≠ 0
  sampled : raw ≠ 0
  enough : buckets * 2 ≤ decimated.length

theorem Asks.not_skipped (h : v.Asks decimated buckets raw) :
    ¬(!v.isReady ∨ buckets = 0 ∨ raw = 0) := by
  simp [isReady, h.ready, h.bucketed, h.sampled]

theorem verify_of_inRange (h : v.Asks decimated buckets raw) (hrange : InRange buckets raw) :
    v.verify decimated buckets raw = some
      (v.count decimated buckets (max (raw / buckets) 1) (max (raw / buckets) 1 + 1)) := by
  rw [Verifier.verify, if_neg h.not_skipped, index?_of_lt hrange.double, Option.bind_eq_bind,
    Option.bind_some, if_neg (Nat.not_lt.mpr h.enough)]
  dsimp only
  rw [index?_of_lt hrange.longer]
  rfl

/-- Nothing is known of the longer window, so that the check aborts. -/
theorem verify_of_long (h : v.Asks decimated buckets raw) (hdouble : buckets * 2 < indexLimit)
    (hlong : indexLimit ≤ max (raw / buckets) 1 + 1) : v.verify decimated buckets raw = none := by
  rw [Verifier.verify, if_neg h.not_skipped, index?_of_lt hdouble, Option.bind_eq_bind,
    Option.bind_some, if_neg (Nat.not_lt.mpr h.enough)]
  dsimp only
  rw [index?_of_le hlong]
  rfl

/-- A check that does not abort has nothing to do, or it counts. -/
theorem verify_cases {p : Report × Verifier} (h : v.verify decimated buckets raw = some p) :
    p = (.ofSkipped buckets, v) ∨
      p = v.count decimated buckets (max (raw / buckets) 1) (max (raw / buckets) 1 + 1) := by
  rw [Verifier.verify] at h
  split at h
  · cases h
    exact .inl rfl
  · obtain ⟨needed, -, h⟩ := Option.bind_eq_some_iff.mp h
    split at h
    · cases h
      exact .inl rfl
    · obtain ⟨next, hnext, h⟩ := Option.bind_eq_some_iff.mp h
      obtain ⟨-, hnext⟩ := Option.ite_none_right_eq_some.mp hnext
      cases hnext
      cases h
      exact .inr rfl

theorem exists_verify (hrange : InRange buckets raw) (v : Verifier) (decimated : List Sample) :
    ∃ p, v.verify decimated buckets raw = some p := by
  rw [Verifier.verify, index?_of_lt hrange.double, Option.bind_eq_bind, Option.bind_some]
  split
  · exact ⟨_, rfl⟩
  · split
    · exact ⟨_, rfl⟩
    · dsimp only
      rw [index?_of_lt hrange.longer]
      exact ⟨_, rfl⟩

theorem Sound.verify (h : v.Sound) {p : Report × Verifier}
    (hp : v.verify decimated buckets raw = some p) : p.2.Sound := by
  rcases verify_cases hp with rfl | rfl
  · exact h
  · exact h.count _ _ _ _

theorem period_verify {p : Report × Verifier} (hp : v.verify decimated buckets raw = some p) :
    p.2.period = v.period := by
  rcases verify_cases hp with rfl | rfl
  · rfl
  · exact (period_ensure _ _).trans (period_ensure v _)

theorem tolerance_verify {p : Report × Verifier} (hp : v.verify decimated buckets raw = some p) :
    p.2.tolerance = v.tolerance := by
  rcases verify_cases hp with rfl | rfl
  · rfl
  · exact (tolerance_ensure _ _).trans (tolerance_ensure v _)

/-- A check of `raw` samples looks at windows that have the extremes of every bucket of `n` samples
of the signal. -/
def Expects (period : List Sample) (buckets raw n : Nat) : Prop :=
  ∀ phase b, b < buckets →
    let pair := extremes (bucketOf (repeated period phase n) buckets b)
    search (windowSet period (raw / buckets)).toArray (packPair pair.1 pair.2) = true ∨
      search (windowSet period (raw / buckets + 1)).toArray (packPair pair.1 pair.2) = true

/-- The extremes of a bucket are in the window set of its length, which is one of two. -/
theorem expects_self {period : List Sample} (hne : period ≠ []) {n buckets : Nat}
    (hpos : 0 < buckets) (hle : buckets ≤ n) (hn : n < indexLimit) :
    Expects period buckets n n := by
  intro phase b hb pair
  have hshare : 1 ≤ n / buckets := (Nat.le_div_iff_mul_le hpos).mpr (by omega)
  obtain ⟨start, hwindow⟩ := bucketOf_repeated period phase hb hn
  have hkey : packPair pair.1 pair.2 =
      keyOf (repeated period start (bucketRange b n buckets).length) := by
    simp only [pair, hwindow]
    rfl
  rw [hkey]
  rcases length_bucketRange hb hn with hlength | hlength
  · left
    rw [hlength]
    exact search_windowSet hne hshare start
  · right
    rw [hlength]
    exact search_windowSet hne (Nat.succ_pos _) start

/-- The extremes of the buckets of a periodic signal all match where they are expected. -/
theorem verify_expected (h : v.Sound) (hne : v.period ≠ []) (phase : Nat) {n raw buckets : Nat}
    (hpos : 0 < buckets) (hle : buckets ≤ n) (hraw : buckets ≤ raw) (hrange : InRange buckets raw)
    (hexpects : Expects v.period buckets raw n) :
    ∃ v', v.verify (minMax (repeated v.period phase n) buckets) buckets raw =
      some (.ofCount buckets buckets, v') := by
  have hle' : buckets ≤ (repeated v.period phase n).length := by rwa [length_repeated]
  have hlen := length_minMax hpos hle'
  have hasks : v.Asks (minMax (repeated v.period phase n) buckets) buckets raw :=
    ⟨hne, by omega, by omega, by omega⟩
  have hbase : max (raw / buckets) 1 = raw / buckets :=
    Nat.max_eq_left ((Nat.le_div_iff_mul_le hpos).mpr (by omega))
  rw [verify_of_inRange hasks hrange, hbase]
  refine ⟨_, congrArg some (Prod.ext ?_ rfl)⟩
  rw [h.count_report, pairs_minMax hpos hle', List.take_of_length_le (by simp)]
  congr 1
  rw [List.countP_eq_length.mpr]
  · rw [List.length_map, List.length_range]
  · intro p hp
    obtain ⟨b, hb, rfl⟩ := List.mem_map.mp hp
    have hb' : b < buckets := List.mem_range.mp hb
    apply withinTolerance_of_search
    exact hexpects phase b hb'

/-- The extremes of the buckets of a periodic signal all match. -/
theorem verify_minMax (h : v.Sound) (hne : v.period ≠ []) (phase : Nat) {n buckets : Nat}
    (hpos : 0 < buckets) (hle : buckets ≤ n) (hn : n < indexLimit) (hrange : InRange buckets n) :
    ∃ v', v.verify (minMax (repeated v.period phase n) buckets) buckets n =
      some (.ofCount buckets buckets, v') :=
  verify_expected h hne phase hpos hle hle hrange (expects_self hne hpos hle hn)

/-- What a check leaves of a verifier. One that aborts has changed nothing. -/
def verified (v : Verifier) (decimated : List Sample) (buckets raw : Nat) : Verifier :=
  ((v.verify decimated buckets raw).map (·.2)).getD v

theorem Sound.verified (h : v.Sound) (decimated : List Sample) (buckets raw : Nat) :
    (v.verified decimated buckets raw).Sound ∧
      (v.verified decimated buckets raw).period = v.period ∧
      (v.verified decimated buckets raw).tolerance = v.tolerance := by
  rw [Verifier.verified]
  cases hp : v.verify decimated buckets raw with
  | none => exact ⟨h, rfl, rfl⟩
  | some p => exact ⟨h.verify hp, period_verify hp, tolerance_verify hp⟩

/-- Some checks, each with pairs, buckets and a raw count. -/
def verifyAll (v : Verifier) (calls : List (List Sample × Nat × Nat)) : Verifier :=
  calls.foldl (fun v call => v.verified call.1 call.2.1 call.2.2) v

theorem Sound.verifyAll (h : v.Sound) (calls : List (List Sample × Nat × Nat)) :
    (v.verifyAll calls).Sound ∧ (v.verifyAll calls).period = v.period := by
  induction calls generalizing v with
  | nil => exact ⟨h, rfl⟩
  | cons call calls ih =>
    obtain ⟨hsound, hperiod, -⟩ := h.verified call.1 call.2.1 call.2.2
    obtain ⟨hsound', hperiod'⟩ := ih hsound
    exact ⟨hsound', hperiod'.trans hperiod⟩

end Verifier
end Envelope

/-! ## The stage -/

namespace EnvelopeCheck

open Envelope Decimation

/-- What every call of the stage keeps. -/
structure Checks (c : EnvelopeCheck) (period : List Sample) (raw buckets : Nat) : Prop where
  sound : c.verifier.Sound
  period : c.verifier.period = period
  raw : c.raw = raw
  buckets : c.buckets = buckets

variable {c : EnvelopeCheck} {period : List Sample} {raw buckets : Nat}

theorem new_checks (v : Verifier) (period : List Sample) (raw buckets : Nat) :
    (EnvelopeCheck.new v period raw buckets).Checks period raw buckets :=
  ⟨Verifier.sound_setPeriod v period, rfl, rfl, rfl⟩

theorem checkChannel_eq {samples : List Sample} {p : Report × Verifier}
    (hp : c.verifier.verify samples c.buckets c.raw = some p) : c.checkChannel samples =
      some { c with verifier := p.2, totals := record c.totals p.1 } := by
  rw [EnvelopeCheck.checkChannel, hp]
  rfl

theorem Checks.checkChannel (h : c.Checks period raw buckets) {samples : List Sample}
    {p : Report × Verifier} (hp : c.verifier.verify samples c.buckets c.raw = some p) :
    Checks { c with verifier := p.2, totals := record c.totals p.1 } period raw buckets :=
  ⟨h.sound.verify hp, (Verifier.period_verify hp).trans h.period, h.raw, h.buckets⟩

/-- The step of `checkChannels` for one channel. -/
def checkAt (f : Frame) (c : EnvelopeCheck) (channel : Nat) : Option EnvelopeCheck :=
  match f.channel? channel with
  | some samples => c.checkChannel samples
  | none => some c

/-- No check aborts as long as its numbers are in range. -/
theorem Checks.foldlM (h : c.Checks period raw buckets) (hrange : Verifier.InRange buckets raw)
    (f : Frame) (channels : List Nat) :
    ∃ c', channels.foldlM (checkAt f) c = some c' ∧ c'.Checks period raw buckets := by
  induction channels generalizing c with
  | nil => exact ⟨c, rfl, h⟩
  | cons channel channels ih =>
    obtain ⟨c₁, hstep, hkept⟩ :
        ∃ c₁, checkAt f c channel = some c₁ ∧ c₁.Checks period raw buckets := by
      rw [checkAt]
      split
      · rename_i samples _
        obtain ⟨p, hp⟩ := Verifier.exists_verify (h.buckets ▸ h.raw ▸ hrange) c.verifier samples
        exact ⟨_, checkChannel_eq hp, h.checkChannel hp⟩
      · exact ⟨c, rfl, h⟩
    rw [List.foldlM_cons, hstep]
    exact ih hkept

theorem check_of_shape (hbuckets : c.buckets ≠ 0) (hdouble : c.buckets * 2 < indexLimit) {f : Frame}
    (hshape : f.samplesPerChannel.toNat = c.buckets * 2) :
    c.check f = ((List.range f.channels.toNat).foldlM (checkAt f) c).map fun done =>
      { done with totals := { done.totals with checked := done.totals.checked + 1 } } := by
  rw [EnvelopeCheck.check, if_neg hbuckets, index?_of_lt hdouble, Option.bind_eq_bind,
    Option.bind_some, if_neg (not_not.mpr hshape)]
  exact (Option.map_eq_bind ..).symm

theorem check_of_misshape (hdouble : c.buckets * 2 < indexLimit) {f : Frame}
    (hshape : f.samplesPerChannel.toNat ≠ c.buckets * 2) : c.check f = some c.skip := by
  rw [EnvelopeCheck.check, index?_of_lt hdouble, Option.bind_eq_bind, Option.bind_some,
    if_pos hshape, ite_self]

theorem Checks.check (h : c.Checks period raw buckets) (hrange : Verifier.InRange buckets raw)
    (f : Frame) : ∃ c', c.check f = some c' ∧ c'.Checks period raw buckets := by
  have hdouble : c.buckets * 2 < indexLimit := h.buckets ▸ hrange.double
  by_cases hbuckets : c.buckets = 0
  · refine ⟨c.skip, ?_, ⟨h.sound, h.period, h.raw, h.buckets⟩⟩
    rw [EnvelopeCheck.check, if_pos hbuckets]
  by_cases hshape : f.samplesPerChannel.toNat = c.buckets * 2
  · obtain ⟨done, hfold, hkept⟩ := h.foldlM hrange f (List.range f.channels.toNat)
    rw [check_of_shape hbuckets hdouble hshape, hfold]
    exact ⟨_, rfl, ⟨hkept.sound, hkept.period, hkept.raw, hkept.buckets⟩⟩
  · exact ⟨_, check_of_misshape hdouble hshape, ⟨h.sound, h.period, h.raw, h.buckets⟩⟩

theorem process_of_check {f : Frame} {c' : EnvelopeCheck} (h : c.check f = some c')
    (left : List Frame) :
    c.process (f :: left) = .returned ⟨c', .ok, left, [f.materialize]⟩ := by
  rw [process, h]

/-- The stage after some batches, unless a call breaks off. -/
def processAll (c : EnvelopeCheck) (batches : List (List Frame)) : Option EnvelopeCheck :=
  batches.foldlM (fun c batch =>
    match c.process batch with
    | .returned p => some p.stage
    | _ => none) c

theorem Checks.processAll (h : c.Checks period raw buckets)
    (hrange : Verifier.InRange buckets raw) (batches : List (List Frame)) :
    ∃ c', c.processAll batches = some c' ∧ c'.Checks period raw buckets := by
  induction batches generalizing c with
  | nil => exact ⟨c, rfl, h⟩
  | cons batch batches ih =>
    rw [EnvelopeCheck.processAll, List.foldlM_cons]
    cases batch with
    | nil => exact ih h
    | cons f left =>
      obtain ⟨c', hcheck, hkept⟩ := h.check hrange f
      rw [process_of_check hcheck]
      exact ih hkept

/-- Channels that hold bucket extremes of the signal add all their pairs to both totals. -/
theorem totals_foldlM (h : c.Checks period raw buckets) (hne : period ≠ []) (hpos : 0 < buckets)
    {n : Nat} (hle : buckets ≤ n) (hraw : buckets ≤ raw) (hrange : Verifier.InRange buckets raw)
    (hexpects : Verifier.Expects period buckets raw n) {f : Frame} {channels : List Nat}
    (hsignal : ∀ channel ∈ channels, ∃ phase,
      f.channel? channel = some (minMax (repeated period phase n) buckets)) :
    ∃ done, channels.foldlM (checkAt f) c = some done ∧
      done.totals.total = c.totals.total + UInt64.ofNat (channels.length * buckets) ∧
      done.totals.matched = c.totals.matched + UInt64.ofNat (channels.length * buckets) := by
  induction channels generalizing c with
  | nil => exact ⟨c, rfl, by simp⟩
  | cons channel channels ih =>
    obtain ⟨phase, hchannel⟩ := hsignal channel List.mem_cons_self
    obtain ⟨v', hreport⟩ : ∃ v', c.verifier.verify (minMax (repeated period phase n) buckets)
        c.buckets c.raw = some (.ofCount buckets buckets, v') := by
      rw [h.buckets, h.raw, ← h.period]
      exact Verifier.verify_expected h.sound (h.period ▸ hne) phase hpos hle hraw hrange
        (h.period ▸ hexpects)
    obtain ⟨done, hfold, htotal, hmatched⟩ := ih (h.checkChannel hreport)
      fun other hother => hsignal other (List.mem_cons_of_mem _ hother)
    have hsum : UInt64.ofNat ((channels.length + 1) * buckets) =
        UInt64.ofNat buckets + UInt64.ofNat (channels.length * buckets) := by
      rw [← UInt64.ofNat_add, Nat.succ_mul, Nat.add_comm]
    have hat : checkAt f c channel = some { c with
        verifier := v', totals := record c.totals (.ofCount buckets buckets) } := by
      rw [checkAt, hchannel]
      exact checkChannel_eq hreport
    simp only [record, isSkipped_ofCount, Bool.false_eq_true, if_false] at htotal hmatched
    refine ⟨done, ?_, ?_, ?_⟩
    · rw [List.foldlM_cons, hat]
      exact hfold
    · rw [htotal, List.length_cons, hsum, UInt64.add_assoc]
      rfl
    · rw [hmatched, List.length_cons, hsum, UInt64.add_assoc]
      rfl

theorem check_expected (h : c.Checks period raw buckets) (hne : period ≠ []) (hpos : 0 < buckets)
    {n : Nat} (hle : buckets ≤ n) (hraw : buckets ≤ raw) (hrange : Verifier.InRange buckets raw)
    (hexpects : Verifier.Expects period buckets raw n) {f : Frame}
    (hsignal : ∀ channel < f.channels.toNat, ∃ phase,
      f.channel? channel = some (minMax (repeated period phase n) buckets)) :
    ∃ done, c.check f = some done ∧
      done.totals.total = c.totals.total + UInt64.ofNat (f.channels.toNat * buckets) ∧
      done.totals.matched = c.totals.matched + UInt64.ofNat (f.channels.toNat * buckets) := by
  have hdouble : c.buckets * 2 < indexLimit := h.buckets ▸ hrange.double
  by_cases hshape : f.samplesPerChannel.toNat = c.buckets * 2
  · have hchannels : ∀ channel ∈ List.range f.channels.toNat, ∃ phase,
        f.channel? channel = some (minMax (repeated period phase n) buckets) :=
      fun channel hmem => hsignal channel (List.mem_range.mp hmem)
    obtain ⟨done, hfold, htotal, hmatched⟩ :=
      totals_foldlM h hne hpos hle hraw hrange hexpects hchannels
    rw [List.length_range] at htotal hmatched
    rw [check_of_shape (by rw [h.buckets]; omega) hdouble hshape, hfold]
    exact ⟨_, rfl, htotal, hmatched⟩
  · -- Only a frame without channels can have another shape.
    cases hzero : f.channels.toNat with
    | zero => exact ⟨_, check_of_misshape hdouble hshape, by simp [skip]⟩
    | succ k =>
      obtain ⟨phase, hchannel⟩ := hsignal 0 (by omega)
      have hlength := length_channelOf hchannel
      rw [length_minMax hpos (by rwa [length_repeated])] at hlength
      rw [h.buckets] at hshape
      omega

theorem check_minMax (h : c.Checks period raw buckets) (hne : period ≠ []) (hpos : 0 < buckets)
    (hle : buckets ≤ raw) (hraw : raw < indexLimit) (hrange : Verifier.InRange buckets raw)
    {f : Frame} (hsignal : ∀ channel < f.channels.toNat, ∃ phase,
      f.channel? channel = some (minMax (repeated period phase raw) buckets)) :
    ∃ done, c.check f = some done ∧
      done.totals.total = c.totals.total + UInt64.ofNat (f.channels.toNat * buckets) ∧
      done.totals.matched = c.totals.matched + UInt64.ofNat (f.channels.toNat * buckets) :=
  check_expected h hne hpos hle hle hrange (Verifier.expects_self hne hpos hle hraw) hsignal

/-- **Self check.** After any verifier has been given a period, and whatever it has checked since,
the bucket extremes of the repetition of that period match in all pairs, for every phase, every
number of buckets and every number of samples that a check can count. (It can count all samples
that fit the address space, at two bytes a sample, by `Verifier.inRange_of_le`.) A stage hands on
all frames that come before, adds the pairs of all channels of a frame of such extremes to both of
its totals, and hands that frame on. -/
theorem self_check :
    (∀ (v : Verifier) (period : List Sample) (calls : List (List Sample × Nat × Nat))
      (phase n buckets : Nat), period ≠ [] → 1 ≤ buckets → buckets ≤ n → n < indexLimit →
      Verifier.InRange buckets n →
      ∃ report v', ((v.setPeriod period).verifyAll calls).verify
          (minMax (repeated period phase n) buckets) buckets n = some (report, v') ∧
        report.isSkipped = false ∧ report.matched = buckets ∧ report.total = buckets) ∧
    (∀ (v : Verifier) (period : List Sample) (n buckets : Nat) (batches : List (List Frame))
      (f : Frame) (left : List Frame), period ≠ [] → 1 ≤ buckets → buckets ≤ n → n < indexLimit →
      Verifier.InRange buckets n →
      (∀ channel < f.channels.toNat, ∃ phase,
        f.channel? channel = some (minMax (repeated period phase n) buckets)) →
      ∃ before p, (EnvelopeCheck.new v period n buckets).processAll batches = some before ∧
        before.process (f :: left) = .returned p ∧
        p.stage.totals.total = before.totals.total + UInt64.ofNat (f.channels.toNat * buckets) ∧
        p.stage.totals.matched =
          before.totals.matched + UInt64.ofNat (f.channels.toNat * buckets) ∧
        p.result = .ok ∧ p.left = left ∧ p.made = [f.materialize]) := by
  refine ⟨?_, ?_⟩
  · intro v period calls phase n buckets hne hpos hle hn hrange
    obtain ⟨hsound, hperiod⟩ := (v.sound_setPeriod period).verifyAll calls
    obtain ⟨v', hreport⟩ :=
      Verifier.verify_minMax hsound (by rwa [hperiod]) phase hpos hle hn hrange
    rw [hperiod] at hreport
    exact ⟨_, v', hreport, isSkipped_ofCount _ _, rfl, rfl⟩
  · intro v period n buckets batches f left hne hpos hle hn hrange hsignal
    obtain ⟨before, hbefore, hchecks⟩ :=
      (new_checks v period n buckets).processAll hrange batches
    obtain ⟨done, hcheck, htotal, hmatched⟩ :=
      check_minMax hchecks hne hpos hle hn hrange hsignal
    exact ⟨before, _, hbefore, process_of_check hcheck left, htotal, hmatched, rfl, rfl, rfl⟩

/-- A period of four in seven samples and three buckets, one of them longer than the others; then a
frame of two channels with different phases, after a frame of another shape. -/
theorem self_check_pair :
    let period : List Sample := [3, -1, 4, 1]
    let extremes phase := minMax (repeated period phase 7) 3
    let f : Frame := { channels := 2, samplesPerChannel := 6
                       storage := .owned (extremes 0 ++ extremes 3), fits := by decide +kernel }
    (∃ report v', ((Verifier.new.setPeriod period).verifyAll [([9, 9], 1, 5)]).verify
        (extremes 2) 3 7 = some (report, v') ∧
      report.isSkipped = false ∧ report.matched = 3 ∧ report.total = 3) ∧
      ∃ before p, (EnvelopeCheck.new .new period 7 3).processAll [[Frame.zeros 1 1]] = some before ∧
        before.process [f] = .returned p ∧ p.stage.totals.total = before.totals.total + 6 := by
  intro period extremes f
  have hrange : Verifier.InRange 3 7 := Verifier.inRange_of_le (by decide) (by decide)
  refine ⟨self_check.1 .new period [([9, 9], 1, 5)] 2 7 3 (by decide) (by decide) (by decide)
    (by decide) hrange, ?_⟩
  obtain ⟨before, p, hbefore, hprocess, htotal, -⟩ := self_check.2 .new period 7 3
    [[Frame.zeros 1 1]] f [] (by decide) (by decide) (by decide) (by decide) hrange (by
      intro channel hchannel
      match channel, hchannel with
      | 0, _ => exact ⟨0, by decide +kernel⟩
      | 1, _ => exact ⟨3, by decide +kernel⟩)
  exact ⟨before, p, hbefore, hprocess, htotal⟩

end EnvelopeCheck

end Oscilloscope
