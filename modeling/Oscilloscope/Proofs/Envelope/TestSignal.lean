import Oscilloscope.Proofs.Decimation.Frames
import Oscilloscope.Proofs.Envelope.SelfCheck
import Oscilloscope.Proofs.Intake.Blocks
import Oscilloscope.Proofs.Ring.Lanes

/-!
# Oscilloscope.Proofs.Envelope.TestSignal

A periodic signal that is fed into a link and checked at the other end.

The signal goes through a link, an intake and a decimator into a check, which knows how many
samples a full block has. At the end of the stream the link hands out a shorter block. Its buckets
are shorter too, while the check goes on looking for the windows of a full block.

* `TestSignal`: one period for all channels, each with a phase of its own.
* `Link.Carries`: what the rings of a link hold of the signal. Every operation keeps this.
* `Verifier.expects_of_share`, `Verifier.expects_of_period`: when the windows of a full block
  will do for a shorter one.
* `Trial`: a run of the whole chain. `Trial.Kept` is its invariant, with one lemma per act.
* `Trial.run_matches`: no false alarm, as long as the last block is one of those.
* `Trial.call_rest`, `Trial.run_alarms`: what the check says of another one, and a false alarm.
-/

namespace Oscilloscope

open Decimation Envelope

/-! ## The signal -/

structure TestSignal where
  period : List Sample
  /-- Where in the period each channel begins. -/
  phase : Nat → Nat

namespace TestSignal

variable (s : TestSignal) (channel : Nat)

/-- `n` samples of a channel, from index `start` on. -/
def samples (start n : Nat) : List Sample := repeated s.period (s.phase channel + start) n

@[simp] theorem length_samples (start n : Nat) : (s.samples channel start n).length = n :=
  length_repeated _ _ _

theorem samples_append (start m n : Nat) :
    s.samples channel start m ++ s.samples channel (start + m) n =
      s.samples channel start (m + n) := by
  simp only [samples, repeated_eq, ← List.map_append, ← Nat.add_assoc, List.range'_append_1]

theorem take_samples {start k n : Nat} (hle : k ≤ n) :
    (s.samples channel start n).take k = s.samples channel start k := by
  obtain ⟨m, rfl⟩ := Nat.exists_eq_add_of_le hle
  rw [← samples_append, List.take_left' (length_samples s channel start k)]

theorem drop_samples {start k n : Nat} (hle : k ≤ n) :
    (s.samples channel start n).drop k = s.samples channel (start + k) (n - k) := by
  obtain ⟨m, rfl⟩ := Nat.exists_eq_add_of_le hle
  rw [← samples_append, List.drop_left' (length_samples s channel start k), Nat.add_sub_cancel_left]

/-- The next `n` samples of every channel. -/
def block (channels start : Nat) (n : UInt32) : Buffer where
  channels := UInt32.ofNat channels
  samplesPerChannel := n
  samples := ((List.range channels).map fun channel => s.samples channel start n.toNat).flatten

variable {s channel}

theorem block_channel {channels : Nat} (hsmall : channels < 2 ^ 32) (hlt : channel < channels)
    (start : Nat) (n : UInt32) :
    (s.block channels start n).channel? channel = some (s.samples channel start n.toNat) := by
  unfold Buffer.channel? block
  rw [channelOf_flatten]
  · simp [hlt]
  · simp
  · rw [List.length_map, List.length_range, UInt32.toNat_ofNat_of_lt' hsmall]

end TestSignal

/-! ## The link -/

namespace Link

/-- Of the signal, `taken` samples per channel have left the link, and it holds the next `level`. -/
structure Carries (s : TestSignal) (closed : Bool) (taken level : Nat) (l : Link) : Prop where
  valid : l.Valid
  lane : ∀ channel lane, l.lanes[channel]? = some lane →
    lane.ring.contents = s.samples channel taken level ∧ lane.ring.closed = closed

variable {s : TestSignal} {closed : Bool} {taken level : Nat} {l : Link}

theorem Carries.mem (h : l.Carries s closed taken level) {lane : Lane} (hlane : lane ∈ l.lanes) :
    lane.ring.length = level ∧ lane.ring.closed = closed := by
  obtain ⟨channel, hget⟩ := List.mem_iff_getElem?.mp hlane
  obtain ⟨hcontents, hclosed⟩ := h.lane channel lane hget
  have hlength := Ring.length_contents (h.valid.ring lane hlane)
  rw [hcontents, TestSignal.length_samples] at hlength
  exact ⟨hlength.symm, hclosed⟩

theorem Carries.available (h : l.Carries s closed taken level) : l.available = level := by
  have hle (k : Nat) : k ≤ l.available ↔ k ≤ level := by
    rw [le_available h.valid.lanes_ne]
    obtain ⟨lane, hlane⟩ := List.exists_mem_of_ne_nil _ h.valid.lanes_ne
    constructor
    · intro hall
      rw [← (h.mem hlane).1]
      exact hall lane hlane
    · intro hk other hother
      rwa [(h.mem hother).1]
  exact Nat.le_antisymm ((hle _).mp (Nat.le_refl _)) ((hle _).mpr (Nat.le_refl _))

theorem Carries.allClosed (h : l.Carries s closed taken level) : l.allClosed = closed := by
  obtain ⟨lane, hlane⟩ := List.exists_mem_of_ne_nil _ h.valid.lanes_ne
  rw [Bool.eq_iff_iff, Link.allClosed, List.all_eq_true, Link.rings, List.forall_mem_map]
  constructor
  · intro hall
    rw [← (h.mem hlane).2]
    exact hall lane hlane
  · intro hclosed other hother
    rw [(h.mem hother).2, hclosed]

theorem Carries.of_lanes (h : l.Carries s closed taken level) {l' : Link} {closed' : Bool}
    {taken' level' : Nat} (hblock : l'.blockLength = l.blockLength)
    (hlen : l'.lanes.length = l.lanes.length)
    (hlane : ∀ channel lane, l'.lanes[channel]? = some lane → lane.ring.Valid ∧
      lane.ring.contents = s.samples channel taken' level' ∧ lane.ring.closed = closed') :
    l'.Carries s closed' taken' level' where
  valid := by
    apply h.valid.of_lanes hblock hlen
    intro lane hmem
    obtain ⟨channel, hget⟩ := List.mem_iff_getElem?.mp hmem
    exact (hlane channel lane hget).1
  lane := fun channel lane hget => (hlane channel lane hget).2

theorem Carries.feed (h : l.Carries s closed taken level) {n : UInt32}
    (hroom : ∀ lane ∈ l.lanes, n.toNat ≤ lane.ring.free) :
    (l.feed (s.block l.lanes.length (taken + level) n)).2.Carries s closed taken
      (level + n.toNat) := by
  rw [feed_lanes]
  refine h.of_lanes rfl List.length_mapIdx ?_
  intro channel lane hget
  simp only [List.getElem?_mapIdx, Option.map_eq_some_iff] at hget
  obtain ⟨old, hold, rfl⟩ := hget
  have hmem := List.mem_of_getElem? hold
  have hlt := (List.getElem?_eq_some_iff.mp hold).1
  obtain ⟨hcontents, hclosed⟩ := h.lane channel old hold
  obtain ⟨hvalid, hfed, -, hsame, -⟩ := Lane.feed_spec (h.valid.ring old hmem)
    (TestSignal.block_channel h.valid.lanes_lt hlt (taken + level) n)
  refine ⟨hvalid, ?_, hsame.trans hclosed⟩
  rw [hfed, List.take_of_length_le (by simpa using hroom old hmem), hcontents,
    TestSignal.samples_append]

theorem Carries.close (h : l.Carries s closed taken level) :
    l.close.Carries s true taken level := by
  refine h.of_lanes rfl (List.length_map _) ?_
  intro channel lane hget
  simp only [Link.close, List.getElem?_map, Option.map_eq_some_iff] at hget
  obtain ⟨old, hold, rfl⟩ := hget
  exact ⟨(h.valid.ring old (List.mem_of_getElem? hold)).close, (h.lane channel old hold).1, rfl⟩

theorem Carries.drain (h : l.Carries s closed taken level) {count : Nat} (hle : count ≤ level) :
    (l.drain count).Carries s closed (taken + count) (level - count) := by
  refine h.of_lanes rfl (List.length_map _) ?_
  intro channel lane hget
  simp only [Link.drain, List.getElem?_map, Option.map_eq_some_iff] at hget
  obtain ⟨old, hold, rfl⟩ := hget
  obtain ⟨hcontents, hclosed⟩ := h.lane channel old hold
  obtain ⟨hvalid, hrest, -, hsame⟩ :=
    Lane.drain_spec (h.valid.ring old (List.mem_of_getElem? hold)) count
  refine ⟨hvalid, ?_, hsame.trans hclosed⟩
  rw [hrest, hcontents, TestSignal.drop_samples s channel hle]

/-- A read gives a block of the signal, the last of them perhaps a short one, or nothing. -/
theorem Carries.reads (h : l.Carries s closed taken level) :
    (∃ count, 0 < count ∧ count ≤ level ∧
      (count = l.blockLength ∨ closed = true ∧ count = level ∧ count < l.blockLength) ∧
      l.read = (.ok (l.block count), l.drain count)) ∨
    ∃ e, l.read = (.error e, l) := by
  have hreads := Link.reads h.valid
  generalize l.read = outcome at hreads ⊢
  cases hreads with
  | @block count hpos hall hsize =>
    have hle : count ≤ level := h.available ▸ (le_available h.valid.lanes_ne _).mpr hall
    rw [h.available, h.allClosed] at hsize
    exact .inl ⟨count, hpos, hle, hsize, rfl⟩
  | noData => exact .inr ⟨.noData, rfl⟩
  | endOfStream => exact .inr ⟨.endOfStream, rfl⟩

theorem Carries.block_channel (h : l.Carries s closed taken level) {count : Nat}
    (hle : count ≤ level) (hsmall : count < 2 ^ 32) {channel : Nat}
    (hlt : channel < l.lanes.length) :
    (l.block count).channel? channel = some (s.samples channel taken count) := by
  have hall : ∀ lane ∈ l.lanes, count ≤ lane.ring.length := by
    intro lane hlane
    rwa [(h.mem hlane).1]
  have hget : l.lanes[channel]? = some l.lanes[channel] := List.getElem?_eq_getElem hlt
  rw [Link.block_channel h.valid hsmall hall, hget, Option.map_some, (h.lane channel _ hget).1,
    TestSignal.take_samples s channel hle]

theorem Carries.block_fits (h : l.Carries s closed taken level) {count : Nat}
    (hle : count ≤ level) (hsmall : count < 2 ^ 32) : (l.block count).Fits := by
  have hparts : ∀ part ∈ l.lanes.map fun lane => lane.ring.contents.take count,
      part.length = count := by
    rw [List.forall_mem_map]
    intro lane hlane
    rw [List.length_take, Ring.length_contents (h.valid.ring lane hlane), (h.mem hlane).1,
      Nat.min_eq_left hle]
  unfold Buffer.Fits block
  rw [UInt32.toNat_ofNat_of_lt' h.valid.lanes_lt, UInt32.toNat_ofNat_of_lt' hsmall,
    List.length_flatten, List.map_congr_left hparts, List.map_const', List.sum_replicate_nat,
    List.length_map]

end Link

/-! ## Shorter blocks -/

namespace Envelope.Verifier

variable {period : List Sample} {buckets raw n : Nat}

theorem expects_of_share (hne : period ≠ []) (hpos : 0 < buckets) (hle : buckets ≤ n)
    (hn : n < indexLimit) (hshare : n / buckets = raw / buckets) :
    Expects period buckets raw n := by
  have hself := expects_self hne hpos hle hn
  unfold Expects at hself ⊢
  rwa [hshare] at hself

/-- Buckets that hold a whole period have the extremes of any longer window. -/
theorem expects_of_period (hne : period ≠ []) (hn : n < indexLimit) (hle : n ≤ raw)
    (hlong : period.length ≤ n / buckets) : Expects period buckets raw n := by
  intro phase b hb pair
  obtain ⟨start, hwindow⟩ := bucketOf_repeated period phase hb hn
  have hlength : period.length ≤ (bucketRange b n buckets).length := by
    rcases length_bucketRange hb hn with hlength | hlength
    · omega
    · omega
  have hkey : packPair pair.1 pair.2 =
      keyOf (repeated period start (bucketRange b n buckets).length) := by
    simp only [pair, hwindow]
    rfl
  have hraw : period.length ≤ raw / buckets := hlong.trans (Nat.div_le_div_right hle)
  have hpos : 0 < raw / buckets := Nat.lt_of_lt_of_le (List.length_pos_iff.mpr hne) hraw
  left
  rw [hkey, keyOf_repeated_of_length_le hne hlength, ← keyOf_repeated_of_length_le hne hraw 0]
  exact search_windowSet hne hpos 0

end Envelope.Verifier

/-- The rest that remains of `fed` samples in blocks of `raw` raises no alarm: it is too short to be
checked, or its buckets are as long as those of a full block, or a whole period fits into each. -/
def TailFits (period : List Sample) (raw buckets fed : Nat) : Prop :=
  fed % raw < buckets ∨ fed % raw / buckets = raw / buckets ∨
    period.length ≤ fed % raw / buckets

instance (period : List Sample) (raw buckets fed : Nat) :
    Decidable (TailFits period raw buckets fed) := inferInstanceAs (Decidable (_ ∨ _ ∨ _))

/-- A rest that fits finds its windows among those of a full block. -/
theorem TailFits.expects {period : List Sample} {raw buckets fed : Nat}
    (h : TailFits period raw buckets fed) (hne : period ≠ []) (hpos : 0 < buckets)
    (henough : buckets ≤ fed % raw) (hshort : fed % raw < raw) (hraw : raw < indexLimit) :
    Verifier.Expects period buckets raw (fed % raw) := by
  have hn : fed % raw < indexLimit := hshort.trans hraw
  rcases h with hfew | hshare | hlong
  · exact absurd henough (Nat.not_le.mpr hfew)
  · exact Verifier.expects_of_share hne hpos henough hn hshare
  · exact Verifier.expects_of_period hne hn hshort.le hlong

/-! ## The whole chain -/

/-- A test signal in the chain of an intake, a decimator and a check. -/
structure Trial where
  intake : Intake
  decimator : Decimator
  check : EnvelopeCheck
  /-- Samples per channel that have been fed. -/
  fed : Nat := 0
  closed : Bool := false
  /-- Samples per channel of the frames that have come out of the intake, in order. -/
  lengths : List Nat := []
  /-- A call has broken off. -/
  broken : Bool := false

def Source.overLink (f : Link → Link) : Source → Source
  | .ring l => .ring (f l)
  | source => source

namespace Trial

inductive Act where
  | feed (n : UInt32)
  | close
  /-- Call the stages one after the other. -/
  | call

/-- A frame goes through the decimator and the check. -/
def pass (t : Trial) (f : Frame) : Trial :=
  let p := t.decimator.process [f]
  match t.check.process p.made with
  | .returned done =>
    { t with
      decimator := p.stage
      check := done.stage
      lengths := t.lengths ++ [f.samplesPerChannel.toNat] }
  | _ => { t with broken := true }

def step (s : TestSignal) (t : Trial) : Act → Trial
  | .feed n =>
    { t with
      intake := { t.intake with source := t.intake.source.overLink fun l =>
        (l.feed (s.block l.lanes.length t.fed n)).2 }
      fed := t.fed + n.toNat }
  | .close =>
    { t with
      intake := { t.intake with source := t.intake.source.overLink Link.close }
      closed := true }
  | .call =>
    match t.intake.process [] with
    | .returned p => p.made.foldl pass { t with intake := p.stage }
    | _ => { t with broken := true }

def run (s : TestSignal) (t : Trial) (acts : List Act) : Trial := acts.foldl (step s) t

/-- Whether every ring has room for `n` more samples. -/
def hasRoom (t : Trial) (n : UInt32) : Bool :=
  match t.intake.source with
  | .ring l => l.lanes.all fun lane => decide (n.toNat ≤ lane.ring.free)
  | _ => true

/-- Every portion finds room, and none comes after the end. -/
def isLossless (s : TestSignal) : Trial → List Act → Bool
  | _, [] => true
  | t, .feed n :: acts => !t.closed && t.hasRoom n && isLossless s (t.step s (.feed n)) acts
  | t, act :: acts => isLossless s (t.step s act) acts

/-- A trial at its beginning: the intake has been started, and the check knows the signal. -/
def new (s : TestSignal) (v : Verifier) (channels : UInt32) (capacity : Nat) (block : UInt32)
    (rate : Double) (buckets : Nat) : Trial where
  intake := ({ source := .ring (.new channels capacity block rate) : Intake }).start.2
  decimator := .new .minMax buckets
  check := .new v s.period block.toNat buckets

/-- The decimator and the check are set to the same buckets. -/
structure Ready (period : List Sample) (raw buckets : Nat) (t : Trial) : Prop where
  mode : t.decimator.mode = .minMax
  target : t.decimator.target = buckets
  checks : t.check.Checks period raw buckets

/-- What a lossless run keeps. -/
structure Kept (s : TestSignal) (channels raw buckets : Nat) (t : Trial) : Prop where
  ready : t.Ready s.period raw buckets
  range : Verifier.InRange buckets raw
  unbroken : t.broken = false
  link : ∃ l taken level, t.intake.source = .ring l ∧ l.Carries s t.closed taken level ∧
    l.lanes.length = channels ∧ l.blockLength = raw ∧ taken + level = t.fed ∧
    (taken % raw = 0 ∨ level = 0 ∧ t.closed = true)
  matched : (t.closed = true → TailFits s.period raw buckets t.fed) →
    t.check.totals.matched = t.check.totals.total ∧
    (2 * buckets < 2 ^ 32 → t.check.totals.total =
      UInt64.ofNat (channels * buckets * t.lengths.countP (buckets ≤ ·)))

section Pass

variable {t : Trial} {period : List Sample} {raw buckets n : Nat} {f : Frame}

theorem pass_of_check {c : EnvelopeCheck}
    (h : t.check.check (t.decimator.decimateFrame f).1 = some c) :
    t.pass f = { t with
      decimator := (t.decimator.process [f]).stage
      check := c
      lengths := t.lengths ++ [f.samplesPerChannel.toNat] } := by
  have hprocess := EnvelopeCheck.process_of_check h []
  have hmade : (t.decimator.process [f]).made = [(t.decimator.decimateFrame f).1] := rfl
  simp only [pass, hmade, hprocess]

/-- A frame does not break the chain off, and it changes what is counted only. -/
theorem Ready.pass (h : t.Ready period raw buckets) (hrange : Verifier.InRange buckets raw)
    (f : Frame) : ∃ c, t.check.check (t.decimator.decimateFrame f).1 = some c ∧
      (t.pass f).check = c ∧ (t.pass f).Ready period raw buckets ∧
      (t.pass f).lengths = t.lengths ++ [f.samplesPerChannel.toNat] ∧
      (t.pass f).intake = t.intake ∧ (t.pass f).fed = t.fed ∧ (t.pass f).closed = t.closed ∧
      (t.pass f).broken = t.broken := by
  obtain ⟨c, hcheck, hchecks⟩ := h.checks.check hrange (t.decimator.decimateFrame f).1
  rw [pass_of_check hcheck]
  exact ⟨c, hcheck, rfl, ⟨h.mode, h.target, hchecks⟩, rfl, rfl, rfl, rfl, rfl⟩

theorem Ready.of_same (h : t.Ready period raw buckets) {t' : Trial}
    (hdecimator : t'.decimator = t.decimator) (hcheck : t'.check = t.check) :
    t'.Ready period raw buckets :=
  ⟨hdecimator ▸ h.mode, hdecimator ▸ h.target, hcheck ▸ h.checks⟩

/-- A frame of the signal adds as much to the matched pairs as to all pairs. -/
theorem pass_totals (h : t.Ready period raw buckets) (hne : period ≠ []) (hpos : 0 < buckets)
    (hraw : buckets ≤ raw) (hrange : Verifier.InRange buckets raw) (hsmall : buckets < 2 ^ 32)
    (hchannels : f.channels ≠ 0)
    (hsignal : ∀ channel < f.channels.toNat, ∃ phase,
      f.channel? channel = some (repeated period phase f.samplesPerChannel.toNat))
    (hexpects : buckets ≤ f.samplesPerChannel.toNat →
      Verifier.Expects period buckets raw f.samplesPerChannel.toNat) :
    ∃ added : UInt64, (t.pass f).check.totals.total = t.check.totals.total + added ∧
      (t.pass f).check.totals.matched = t.check.totals.matched + added ∧
      (2 * buckets < 2 ^ 32 → added = UInt64.ofNat
        (if buckets ≤ f.samplesPerChannel.toNat then f.channels.toNat * buckets else 0)) := by
  obtain ⟨c, hcheck, hpass, -⟩ := h.pass hrange f
  obtain rfl : t.decimator.target = buckets := h.target
  have hdouble : t.check.buckets * 2 < indexLimit := h.checks.buckets ▸ hrange.double
  -- A frame of another shape is counted in neither.
  have hskipped (hshape : (t.decimator.decimateFrame f).1.samplesPerChannel.toNat ≠
      2 * t.decimator.target) : c.totals.total = t.check.totals.total ∧
        c.totals.matched = t.check.totals.matched := by
    rw [EnvelopeCheck.check_of_misshape hdouble (by rw [h.checks.buckets]; omega)] at hcheck
    cases hcheck
    exact ⟨rfl, rfl⟩
  rw [hpass]
  by_cases hshort : f.samplesPerChannel.toNat < t.decimator.target
  · -- The frame is too short to be reduced, and so too short to be checked.
    have hlength := Decimator.decimateFrame_short h.mode hchannels hsmall hshort
    obtain ⟨htotal, hmatched⟩ := hskipped (by rw [hlength]; omega)
    refine ⟨0, by rw [htotal, UInt64.add_zero], by rw [hmatched, UInt64.add_zero], fun _ => ?_⟩
    rw [if_neg (by omega)]
    rfl
  · have henough : t.decimator.target ≤ f.samplesPerChannel.toNat := by omega
    by_cases hwide : 2 * t.decimator.target < 2 ^ 32
    · obtain ⟨hsame, -, hchannel⟩ :=
        Decimator.decimateFrame_minMax h.mode hchannels hpos henough hwide
      have hpairs : ∀ channel < (t.decimator.decimateFrame f).1.channels.toNat, ∃ phase,
          (t.decimator.decimateFrame f).1.channel? channel =
            some (minMax (repeated period phase f.samplesPerChannel.toNat) t.decimator.target) := by
        intro channel hlt
        rw [hsame] at hlt
        obtain ⟨phase, hphase⟩ := hsignal channel hlt
        exact ⟨phase, by rw [hchannel channel hlt, Frame.samplesOf, hphase, Option.getD_some]⟩
      obtain ⟨done, hdone, htotal, hmatched⟩ := EnvelopeCheck.check_expected h.checks hne hpos
        henough hraw hrange (hexpects henough) hpairs
      rw [hsame] at htotal hmatched
      rw [hcheck] at hdone
      cases hdone
      exact ⟨_, htotal, hmatched, fun _ => by rw [if_pos henough]⟩
    · have hzero :=
        Decimator.decimateFrame_wide h.mode hchannels hpos henough (Nat.not_lt.mp hwide)
      obtain ⟨htotal, hmatched⟩ :=
        hskipped (by rw [hzero]; exact (Nat.mul_pos Nat.two_pos hpos).ne)
      exact ⟨0, by rw [htotal, UInt64.add_zero], by rw [hmatched, UInt64.add_zero],
        fun hfew => absurd hfew hwide⟩

end Pass

/-! ## Runs -/

section Runs

variable {s : TestSignal} {t : Trial} {channels raw buckets : Nat}

theorem new_kept (s : TestSignal) (v : Verifier) (channels : UInt32) (capacity : Nat)
    {block : UInt32} (rate : Double) {buckets : Nat} (hpos : 0 < buckets)
    (hle : buckets ≤ block.toNat) :
    (new s v channels capacity block rate buckets).Kept s (max channels.toNat 1) block.toNat
      buckets where
  ready := ⟨rfl, rfl, EnvelopeCheck.new_checks v s.period block.toNat buckets⟩
  range := by
    have hword := block.toNat_lt
    have hlimit : indexLimit = 18446744073709551616 := rfl
    exact Verifier.inRange_of_le hle (by omega)
  unbroken := rfl
  link := by
    refine ⟨.new channels capacity block rate, 0, 0, rfl, ⟨Link.new_valid _ _ _ _, ?_⟩, ?_, ?_, rfl,
      .inl (Nat.zero_mod _)⟩
    · intro channel lane hget
      rw [Link.new_lanes] at hget
      rw [List.eq_of_mem_replicate (List.mem_of_getElem? hget)]
      exact ⟨Ring.contents_new capacity 0, rfl⟩
    · rw [Link.new_lanes, List.length_replicate]
    · exact Nat.max_eq_left (by omega)
  matched := fun _ => ⟨rfl, fun _ => by simp [new, EnvelopeCheck.new]⟩

theorem process_ring {intake : Intake} {l l' : Link} {b : Buffer}
    (hsource : intake.source = .ring l) (hread : l.read = (.ok b, l')) (hfits : b.Fits) :
    ∃ f numbering, f.toBuffer = b ∧
      intake.process [] = .returned ⟨⟨.ring l', numbering⟩, .ok, [], [f]⟩ := by
  have hreceives := intake.numbering.receives b (Source.info (.ring l')).rate
  have hsourceRead : intake.source.read = (.ok b, .ring l') := by
    rw [hsource]
    simp only [Source.read, hread]
    rfl
  unfold Intake.process
  rw [hsourceRead]
  generalize hreceive : intake.numbering.receive b (Source.info (.ring l')).rate = outcome
    at hreceives ⊢
  cases hreceives with
  | @frame f numbering _ hbuffer =>
    simp only [hreceive]
    exact ⟨f, numbering, hbuffer, rfl⟩
  | discard misfit => exact absurd hfits misfit

theorem process_ring_error {intake : Intake} {l : Link} {e : ReadError}
    (hsource : intake.source = .ring l) (hread : l.read = (.error e, l)) :
    ∃ result, intake.process [] = .returned ⟨intake, result, [], []⟩ := by
  obtain ⟨source, numbering⟩ := intake
  obtain rfl : source = .ring l := hsource
  unfold Intake.process
  simp only [Source.read, hread, Outcome.ofExcept]
  cases e <;> exact ⟨_, rfl⟩

/-- What a call comes to when the link gives the next `count` samples. -/
theorem step_call {l : Link} {closed : Bool} {taken level count : Nat}
    (hsource : t.intake.source = .ring l) (hcarries : l.Carries s closed taken level)
    (hfits : count ≤ level) (hsmall : count < 2 ^ 32)
    (hread : l.read = (.ok (l.block count), l.drain count)) :
    ∃ f numbering, t.step s .call =
        pass { t with intake := ⟨.ring (l.drain count), numbering⟩ } f ∧
      f.channels.toNat = l.lanes.length ∧ f.samplesPerChannel.toNat = count ∧
      ∀ channel < l.lanes.length, f.channel? channel = some (s.samples channel taken count) := by
  obtain ⟨f, numbering, hbuffer, hprocess⟩ :=
    process_ring hsource hread (hcarries.block_fits hfits hsmall)
  have hlanes : f.channels = UInt32.ofNat l.lanes.length := congrArg Buffer.channels hbuffer
  have hlength : f.samplesPerChannel = UInt32.ofNat count :=
    congrArg Buffer.samplesPerChannel hbuffer
  refine ⟨f, numbering, ?_, ?_, ?_, fun channel hlt => ?_⟩
  · simp only [step, hprocess, List.foldl_cons, List.foldl_nil]
  · rw [hlanes, UInt32.toNat_ofNat_of_lt' hcarries.valid.lanes_lt]
  · rw [hlength, UInt32.toNat_ofNat_of_lt' hsmall]
  · have hchannel := hcarries.block_channel hfits hsmall hlt
    rwa [← hbuffer] at hchannel

theorem feed_kept (h : t.Kept s channels raw buckets) {n : UInt32} (hopen : t.closed = false)
    (hroom : t.hasRoom n = true) : (t.step s (.feed n)).Kept s channels raw buckets := by
  obtain ⟨l, taken, level, hsource, hcarries, hchannels, hblock, hfed, hwhole⟩ := h.link
  have hroom' : ∀ lane ∈ l.lanes, n.toNat ≤ lane.ring.free := by
    simpa [hasRoom, hsource] using hroom
  have hfeed := hcarries.feed hroom'
  refine ⟨h.ready.of_same rfl rfl, h.range, h.unbroken, ?_, fun _ => h.matched ?_⟩
  · refine ⟨_, taken, level + n.toNat, by simp only [step, hsource]; rfl, hfed ▸ hfeed, ?_, ?_, ?_,
      ?_⟩
    · rw [Link.feed_lanes, List.length_mapIdx, hchannels]
    · rw [Link.feed_lanes, hblock]
    · simp only [step]
      omega
    · rcases hwhole with hwhole | ⟨-, hclosed⟩
      · exact .inl hwhole
      · rw [hopen] at hclosed
        cases hclosed
  · intro hclosed
    rw [hopen] at hclosed
    cases hclosed

theorem close_kept (h : t.Kept s channels raw buckets) :
    (t.step s .close).Kept s channels raw buckets := by
  obtain ⟨l, taken, level, hsource, hcarries, hchannels, hblock, hfed, hwhole⟩ := h.link
  refine ⟨h.ready.of_same rfl rfl, h.range, h.unbroken, ?_, fun htail => h.matched ?_⟩
  · refine ⟨_, taken, level, by simp only [step, hsource]; rfl, hcarries.close, ?_, hblock, hfed,
      ?_⟩
    · exact (List.length_map _).trans hchannels
    · exact hwhole.imp_right fun hend => ⟨hend.1, rfl⟩
  · intro _
    exact htail rfl

theorem pass_kept (h : t.Kept s channels raw buckets) (hne : s.period ≠ []) (hpos : 0 < buckets)
    (hle : buckets ≤ raw) {l : Link} {taken level : Nat} {f : Frame} {numbering : Numbering}
    (hcarries : l.Carries s t.closed taken level) (hlanes : l.lanes.length = channels)
    (hblock : l.blockLength = raw) (hfed : taken + level = t.fed) (hwhole : taken % raw = 0)
    (hfits : f.samplesPerChannel.toNat ≤ level)
    (hsize : f.samplesPerChannel.toNat = raw ∨
      t.closed = true ∧ f.samplesPerChannel.toNat = level ∧ f.samplesPerChannel.toNat < raw)
    (hchannels : f.channels.toNat = channels)
    (hsignal : ∀ channel < channels, f.channel? channel =
      some (s.samples channel taken f.samplesPerChannel.toNat)) :
    (pass { t with intake := ⟨.ring (l.drain f.samplesPerChannel.toNat), numbering⟩ } f).Kept s
      channels raw buckets := by
  have hword : raw < 2 ^ 32 := hblock ▸ hcarries.valid.block_lt
  have hlimit : indexLimit = 18446744073709551616 := rfl
  have hsome : f.channels ≠ 0 := by
    have hlanespos := List.length_pos_iff.mpr hcarries.valid.lanes_ne
    rw [hlanes, ← hchannels] at hlanespos
    rintro hzero
    rw [hzero] at hlanespos
    exact absurd hlanespos (Nat.lt_irrefl 0)
  have hready : Ready s.period raw buckets
      { t with intake := ⟨.ring (l.drain f.samplesPerChannel.toNat), numbering⟩ } :=
    h.ready.of_same rfl rfl
  obtain ⟨-, -, -, hready', hlengths, hintake, hfed', hclosed', hbroken⟩ := hready.pass h.range f
  refine ⟨hready', h.range, hbroken.trans h.unbroken, ?_, ?_⟩
  · rw [hfed', hclosed', hintake]
    refine ⟨l.drain f.samplesPerChannel.toNat, taken + f.samplesPerChannel.toNat,
      level - f.samplesPerChannel.toNat, rfl, hcarries.drain hfits, ?_, hblock, ?_, ?_⟩
    · exact (List.length_map _).trans hlanes
    · dsimp only
      omega
    · rcases hsize with hfull | ⟨hclosed, hrest, -⟩
      · left
        rw [hfull, Nat.add_mod_right, hwhole]
      · exact .inr ⟨by omega, hclosed⟩
  · rw [hfed', hclosed', hlengths]
    intro htail
    have htail' : t.closed = true → TailFits s.period raw buckets t.fed := htail
    obtain ⟨hmatched, htotal⟩ := h.matched htail'
    have hexpects : buckets ≤ f.samplesPerChannel.toNat →
        Verifier.Expects s.period buckets raw f.samplesPerChannel.toNat := by
      intro henough
      rcases hsize with hfull | ⟨hclosed, hrest, hshort⟩
      · rw [hfull]
        exact Verifier.expects_self hne hpos hle (by omega)
      · have hmod : t.fed % raw = f.samplesPerChannel.toNat := by
          rw [← hfed, ← hrest, Nat.add_mod, hwhole, Nat.zero_add, Nat.mod_mod,
            Nat.mod_eq_of_lt hshort]
        rw [← hmod] at henough hshort ⊢
        exact (htail' hclosed).expects hne hpos henough hshort (by omega)
    obtain ⟨added, htotal', hmatched', hadded⟩ := pass_totals hready hne hpos hle h.range (by omega)
      hsome
      (fun channel hlt => ⟨_, hsignal channel (hchannels ▸ hlt)⟩) hexpects
    refine ⟨?_, fun hwide => ?_⟩
    · rw [hmatched', htotal']
      exact congrArg (· + added) hmatched
    · have hcounted : (t.lengths ++ [f.samplesPerChannel.toNat]).countP (buckets ≤ ·) =
          t.lengths.countP (buckets ≤ ·) +
            if buckets ≤ f.samplesPerChannel.toNat then 1 else 0 := by
        simp [List.countP_append, List.countP_singleton]
      have hsum : (if buckets ≤ f.samplesPerChannel.toNat then channels * buckets else 0) =
          channels * buckets * if buckets ≤ f.samplesPerChannel.toNat then 1 else 0 := by
        split <;> simp
      rw [htotal', hadded hwide, hchannels, hsum]
      dsimp only
      rw [hcounted, Nat.mul_add, UInt64.ofNat_add]
      exact congrArg (· + _) (htotal hwide)

theorem call_kept (h : t.Kept s channels raw buckets) (hne : s.period ≠ []) (hpos : 0 < buckets)
    (hle : buckets ≤ raw) : (t.step s .call).Kept s channels raw buckets := by
  obtain ⟨l, taken, level, hsource, hcarries, hchannels, hblock, hfed, hwhole⟩ := h.link
  rcases hcarries.reads with ⟨count, hcount, hfits, hsize, hread⟩ | ⟨e, hread⟩
  · rw [hblock] at hsize
    have hword : raw < 2 ^ 32 := hblock ▸ hcarries.valid.block_lt
    have hwhole' : taken % raw = 0 := by
      rcases hwhole with hwhole | ⟨hnone, -⟩
      · exact hwhole
      · omega
    obtain ⟨f, numbering, hstep, hlanes, hlength, hsignal⟩ :=
      step_call hsource hcarries hfits (by omega) hread
    subst hlength
    rw [hstep]
    exact pass_kept h hne hpos hle hcarries hchannels hblock hfed hwhole' hfits hsize
      (hlanes.trans hchannels) (hchannels ▸ hsignal)
  · obtain ⟨result, hprocess⟩ := process_ring_error hsource hread
    simpa only [step, hprocess, List.foldl_nil] using h

theorem run_kept (h : t.Kept s channels raw buckets) (hne : s.period ≠ []) (hpos : 0 < buckets)
    (hle : buckets ≤ raw) {acts : List Act} (hlossless : t.isLossless s acts = true) :
    (t.run s acts).Kept s channels raw buckets := by
  induction acts generalizing t with
  | nil => exact h
  | cons act acts ih =>
    cases act with
    | feed n =>
      simp only [isLossless, Bool.and_eq_true, Bool.not_eq_true'] at hlossless
      obtain ⟨⟨hopen, hroom⟩, hrest⟩ := hlossless
      exact ih (feed_kept h hopen hroom) hrest
    | close => exact ih (close_kept h) hlossless
    | call => exact ih (call_kept h hne hpos hle) hlossless

end Runs

/-- **No false alarm.** A signal with any period, any phases and any number of channels is fed in
portions of any lengths into a link of any capacity, without a loss, and read in blocks, each of
which is reduced to bucket extremes and checked with any tolerance. No call breaks off. At every
moment up to the close all pairs that were checked have matched, and after it as well if the rest
that remains of the blocks raises no alarm. Every pair of every block with enough samples has been
checked, as long as the shape of the reduced block is one of words. -/
theorem run_matches (s : TestSignal) (hne : s.period ≠ []) (v : Verifier) (channels : UInt32)
    (capacity : Nat) {block : UInt32} (rate : Double) {buckets : Nat} (hpos : 1 ≤ buckets)
    (hle : buckets ≤ block.toNat) (acts : List Act) :
    let start := new s v channels capacity block rate buckets
    let t := start.run s acts
    start.isLossless s acts = true →
      t.broken = false ∧
      ((t.closed = true → TailFits s.period block.toNat buckets t.fed) →
        t.check.totals.matched = t.check.totals.total ∧
        (2 * buckets < 2 ^ 32 → t.check.totals.total =
          UInt64.ofNat (max channels.toNat 1 * buckets * t.lengths.countP (buckets ≤ ·)))) := by
  intro start t hlossless
  have hstart : start.Kept s (max channels.toNat 1) block.toNat buckets :=
    new_kept s v channels capacity rate hpos hle
  have hkept := run_kept hstart hne hpos hle hlossless
  exact ⟨hkept.unbroken, hkept.matched⟩

/-- A signal that is checked in two buckets of five samples, and nine samples of it. -/
def sawtooth : TestSignal := ⟨[3, -1, 4, 1, 5], fun channel => 2 * channel⟩

def fives : Trial := new sawtooth .new 2 6 5 .zero 2

def nine : List Act := [.feed 4, .call, .feed 2, .call, .feed 3, .close, .call, .call]

/-- After one full block of five there remain four samples, and the buckets of two that they make
are as long as the shorter bucket of a full block. -/
theorem run_matches_rest :
    fives.isLossless sawtooth nine = true ∧ (fives.run sawtooth nine).lengths = [5, 4] ∧
      (fives.run sawtooth nine).check.totals.matched = 8 ∧
      (fives.run sawtooth nine).check.totals.total = 8 := by
  have hlossless : fives.isLossless sawtooth nine = true := by decide +kernel
  have htail : TailFits sawtooth.period (UInt32.toNat 5) 2 (fives.run sawtooth nine).fed := by
    decide +kernel
  have hlengths : (fives.run sawtooth nine).lengths = [5, 4] := by decide +kernel
  obtain ⟨hmatched, htotal⟩ := (run_matches sawtooth (by decide) .new 2 6 .zero (by decide)
    (by decide) nine hlossless).2 fun _ => htail
  have hnew : new sawtooth .new 2 6 5 .zero 2 = fives := rfl
  rw [hnew] at hmatched htotal
  have hcount : (fives.run sawtooth nine).check.totals.total = 8 := by
    rw [htotal (by decide), hlengths]
    decide
  exact ⟨hlossless, hlengths, hmatched.trans hcount, hcount⟩

theorem pass_single {t : Trial} {period samples : List Sample} {raw buckets total matched : Nat}
    {f : Frame} {v : Verifier} (h : t.Ready period raw buckets) (hpos : 0 < buckets)
    (hwide : 2 * buckets < 2 ^ 32) (henough : buckets ≤ f.samplesPerChannel.toNat)
    (hone : f.channels = 1) (hchannel : f.channel? 0 = some samples)
    (hreport : t.check.verifier.verify (minMax samples buckets) buckets raw =
      some (.ofCount total matched, v)) :
    (t.pass f).check.totals.total = t.check.totals.total + UInt64.ofNat total ∧
      (t.pass f).check.totals.matched = t.check.totals.matched + UInt64.ofNat matched := by
  have hlimit : indexLimit = 18446744073709551616 := rfl
  obtain rfl : t.decimator.target = buckets := h.target
  obtain ⟨hsame, hlength, hreduced⟩ := Decimator.decimateFrame_minMax h.mode
    (by rw [hone]; decide) hpos henough hwide
  have hpairs : (t.decimator.decimateFrame f).1.channel? 0 =
      some (minMax samples t.decimator.target) := by
    rw [hreduced 0 (by rw [hone]; decide), Frame.samplesOf, hchannel, Option.getD_some]
  rw [← h.checks.buckets, ← h.checks.raw] at hreport
  have hat : EnvelopeCheck.checkAt (t.decimator.decimateFrame f).1 t.check 0 = some { t.check with
      verifier := v, totals := EnvelopeCheck.record t.check.totals (.ofCount total matched) } := by
    rw [EnvelopeCheck.checkAt, hpairs, ← h.checks.buckets]
    exact EnvelopeCheck.checkChannel_eq hreport
  have hcheck := EnvelopeCheck.check_of_shape (c := t.check) (f := (t.decimator.decimateFrame f).1)
    (by rw [h.checks.buckets]; omega) (by rw [h.checks.buckets]; omega)
    (by rw [h.checks.buckets, hlength]; omega)
  rw [hsame, hone, UInt32.toNat_one, List.range_one, List.foldlM_cons, hat] at hcheck
  rw [pass_of_check hcheck]
  simp only [EnvelopeCheck.record, isSkipped_ofCount]
  exact ⟨rfl, rfl⟩

/-- The rest of a single channel adds what the report about its extremes says, for the raw count of
a full block. -/
theorem call_rest {s : TestSignal} {t : Trial} {raw buckets n total matched : Nat} {l : Link}
    {v : Verifier}
    (h : t.Kept s 1 raw buckets) (hclosed : t.closed = true) (hsource : t.intake.source = .ring l)
    (havailable : l.available = n) (hpos : 0 < buckets) (henough : buckets ≤ n) (hshort : n < raw)
    (hwide : 2 * buckets < 2 ^ 32)
    (hreport : t.check.verifier.verify (minMax (s.samples 0 (t.fed - n) n) buckets) buckets raw =
      some (.ofCount total matched, v)) :
    (t.step s .call).check.totals.total = t.check.totals.total + UInt64.ofNat total ∧
      (t.step s .call).check.totals.matched =
        t.check.totals.matched + UInt64.ofNat matched := by
  obtain ⟨l', taken, level, hsource', hcarries, hlanes, hblock, hfed, -⟩ := h.link
  obtain rfl : l' = l := by
    rw [hsource] at hsource'
    cases hsource'
    rfl
  obtain rfl : level = n := hcarries.available.symm.trans havailable
  obtain rfl : taken = t.fed - level := by omega
  have hread : l'.read = (.ok (l'.block level), l'.drain level) := by
    apply Link.read_of_plan hcarries.valid _ havailable.ge
    rw [Link.plan, hblock, hcarries.allClosed, havailable, if_neg (Nat.not_le.mpr hshort),
      if_pos hclosed, if_neg (by omega)]
  have hword : raw < 2 ^ 32 := hblock ▸ hcarries.valid.block_lt
  obtain ⟨f, numbering, hstep, hchannels, hlength, hsignal⟩ :=
    step_call hsource hcarries le_rfl (hshort.trans hword) hread
  rw [hlanes] at hchannels hsignal
  rw [hstep]
  have hready : Ready s.period raw buckets
      { t with intake := ⟨.ring (l'.drain level), numbering⟩ } :=
    h.ready.of_same rfl rfl
  exact pass_single hready hpos hwide (hlength.symm ▸ henough) (UInt32.toNat_inj.mp hchannels)
    (hsignal 0 Nat.one_pos) hreport

/-- A signal that is checked in one bucket of two samples. -/
def square : TestSignal := ⟨[0, 9], fun _ => 0⟩

def twos : Trial := new square .new 1 4 2 .zero 1

/-- The third of three samples makes a block of its own. Its extremes are those of a single sample,
while the check looks for windows of two and three. -/
theorem run_alarms :
    twos.isLossless square [.feed 3, .call, .close, .call] = true ∧
      (twos.run square [.feed 3, .call, .close, .call]).check.totals.total = 2 ∧
      (twos.run square [.feed 3, .call, .close, .call]).check.totals.matched = 1 := by
  have hlossless : twos.isLossless square [.feed 3, .call, .close, .call] = true := by
    decide +kernel
  have hnew : (new square .new 1 4 2 .zero 1).Kept square (max (UInt32.toNat 1) 1)
      (UInt32.toNat 2) 1 := new_kept square .new 1 4 .zero (by decide) (by decide)
  have hopen : (twos.run square [.feed 3, .call]).Kept square 1 2 1 :=
    run_kept hnew (by decide) (by decide) (by decide) (by decide +kernel)
  have hclosed : (twos.run square [.feed 3, .call, .close]).Kept square 1 2 1 := close_kept hopen
  -- The full block has matched.
  obtain ⟨hmatched, htotal⟩ := hopen.matched fun hend => absurd hend (by decide +kernel)
  have hlengths : (twos.run square [.feed 3, .call]).lengths = [2] := by decide +kernel
  have hone : (twos.run square [.feed 3, .call]).check.totals.total = 1 := by
    rw [htotal (by decide), hlengths]
    decide
  -- The rest is one sample, and does not match.
  obtain ⟨l, -, -, hsource, -⟩ := hclosed.link
  have havailable : l.available = 1 := by
    have hrest : (match (twos.run square [.feed 3, .call, .close]).intake.source with
      | .ring l => l.available
      | _ => 0) = 1 := by decide +kernel
    simpa only [hsource] using hrest
  have hasks : (twos.run square [.feed 3, .call, .close]).check.verifier.Asks
      (minMax (square.samples 0 (3 - 1) 1) 1) 1 2 :=
    ⟨by decide +kernel, by decide, by decide, by decide +kernel⟩
  obtain ⟨v, hreport⟩ : ∃ v, (twos.run square [.feed 3, .call, .close]).check.verifier.verify
      (minMax (square.samples 0 (3 - 1) 1) 1) 1 2 = some (.ofCount 1 0, v) := by
    refine ⟨_, (Verifier.verify_of_inRange hasks hclosed.range).trans
      (congrArg some (Prod.ext ?_ rfl))⟩
    exact congrArg (Report.ofCount 1) (by decide +kernel)
  obtain ⟨htotal', hmatched'⟩ := call_rest hclosed (by decide +kernel) hsource havailable
    (by decide) (by decide) (by decide) (by decide) hreport
  refine ⟨hlossless, ?_, ?_⟩
  · exact htotal'.trans (congrArg (· + 1) hone)
  · exact hmatched'.trans (congrArg (· + 0) (hmatched.trans hone))

end Trial

end Oscilloscope
