import Oscilloscope.Proofs.Envelope.SelfCheck
import Oscilloscope.Proofs.Intake.Positions
import Oscilloscope.Proofs.Pipeline.Line
import Oscilloscope.Stage.Any

/-!
# Oscilloscope.Proofs.Pipeline.Stages

The stages of this library that belong in a line.

* `Numbered.emits`: the intake of a source with blocks numbered without a hole makes frames with
  the same numbers.
* `forwards_decimator`, `forwards_check` and `forwards_scripted`: decimation, an envelope check that
  can count its windows and a stage whose script is over forward every frame.
-/

namespace Oscilloscope
namespace Pipeline

/-! ## Stages that make frames -/

/-- Well-formed blocks numbered from `n` on. -/
inductive Numbered : Nat → List Buffer → Prop where
  | nil (n : Nat) : Numbered n []
  | cons {n : Nat} {block : Buffer} {rest : List Buffer} (stamp : block.sequence.toNat = n)
      (fits : block.samples.length = block.channels.toNat * block.samplesPerChannel.toNat)
      (tail : Numbered (n + 1) rest) : Numbered n (block :: rest)

def IntakeAt (n : Nat) (s : Stage) : Prop :=
  ∃ source numbering, s = .intake ⟨.manual source, numbering⟩ ∧ Numbered n source.blocks

theorem emitter_intake : Emitter Stage.behavior IntakeAt where
  start := by
    rintro n s result s' ⟨source, numbering, rfl, hnum⟩ hstart
    cases hstart
    refine ⟨source.start.2, _, rfl, ?_⟩
    unfold ManualSource.start
    split <;> exact hnum
  process := by
    rintro n s call p ⟨source, numbering, rfl, hnum⟩ hp
    obtain ⟨channels, rate, blocks, finite, started, failure, startFailure⟩ := source
    simp only [Stage.behavior, Stage.process] at hp
    cases hnum with
    | nil =>
      cases failure with
      | some reason =>
        cases hp
        exact ⟨rfl, rfl, _, _, rfl, .nil n⟩
      | none =>
        cases finite <;> cases hp <;> exact ⟨rfl, rfl, _, _, rfl, .nil n⟩
    | cons stamp fits tail =>
      rename_i block rest
      have hfits : block.Fits := fits
      obtain ⟨f, numbering', hreceive, hbuffer, -⟩ :=
        Numbering.receive_of_fits (n := numbering) hfits rate
      have hseq : f.sequence = block.sequence := congrArg Buffer.sequence hbuffer
      simp only [Intake.process, Source.read, ManualSource.read, Source.info, ManualSource.info,
        Outcome.ofExcept, hreceive, Attempt.map] at hp
      cases hp
      refine ⟨rfl, ?_, _, _, rfl, tail⟩
      simp [Processed.map, hseq, stamp]

theorem Numbered.emits {n : Nat} {source : ManualSource} (h : Numbered n source.blocks)
    (numbering : Numbering) : EmitsFrom Stage.behavior n (.intake ⟨.manual source, numbering⟩) :=
  ⟨IntakeAt, emitter_intake, source, numbering, rfl, h⟩

/-! ## Stages that forward -/

/-- A stage that starts and answers every frame with one frame under the same number. -/
theorem forwarder_of_single {P : Stage → Prop}
    (hstart : ∀ {s result s'}, P s → s.start = .returned (result, s') → P s')
    (hnone : ∀ {s call}, P s → ∃ s' result, P s' ∧ s.process call [] = .returned ⟨s', result, [], []⟩)
    (hsome : ∀ {s call f}, P s → ∃ s' result g, P s' ∧ g.sequence = f.sequence ∧
      s.process call [f] = .returned ⟨s', result, [], [g]⟩) : Forwarder Stage.behavior P where
  start := hstart
  process := by
    intro s call batch p hs hbatch hp
    have hp' : s.process call batch = .returned p := hp
    match batch, hbatch with
    | [], _ =>
      obtain ⟨s', result, hs', heq⟩ := @hnone s call hs
      rw [heq] at hp'
      cases hp'
      exact ⟨rfl, rfl, hs'⟩
    | [f], _ =>
      obtain ⟨s', result, g, hs', hseq, heq⟩ := @hsome s call f hs
      rw [heq] at hp'
      cases hp'
      exact ⟨rfl, by simp [hseq], hs'⟩
  returns := by
    intro s call batch hs hbatch hp
    have hp' : s.process call batch = .panicked := hp
    match batch, hbatch with
    | [], _ =>
      obtain ⟨s', result, -, heq⟩ := @hnone s call hs
      rw [heq] at hp'
      cases hp'
    | [f], _ =>
      obtain ⟨s', result, g, -, -, heq⟩ := @hsome s call f hs
      rw [heq] at hp'
      cases hp'

theorem forwards_decimator (d : Decimator) : Forwards Stage.behavior (.decimator d) := by
  refine ⟨fun s => ∃ d, s = .decimator d, forwarder_of_single ?_ ?_ ?_, d, rfl⟩
  · rintro s result s' ⟨d, rfl⟩ hstart
    cases hstart
    exact ⟨d, rfl⟩
  · rintro s call ⟨d, rfl⟩
    exact ⟨_, _, ⟨d, rfl⟩, rfl⟩
  · rintro s call f ⟨d, rfl⟩
    exact ⟨_, .ok, (d.decimateFrame f).1, ⟨(d.decimateFrame f).2, rfl⟩, rfl, rfl⟩

theorem forwards_check (v : Envelope.Verifier) (period : List Sample) {raw buckets : Nat}
    (hrange : Envelope.Verifier.InRange buckets raw) :
    Forwards Stage.behavior (.check (.new v period raw buckets)) := by
  refine ⟨fun s => ∃ c, s = .check c ∧ c.Checks period raw buckets,
    forwarder_of_single ?_ ?_ ?_, _, rfl, EnvelopeCheck.new_checks v period raw buckets⟩
  · rintro s result s' ⟨c, rfl, hchecks⟩ hstart
    cases hstart
    exact ⟨c, rfl, hchecks⟩
  · rintro s call ⟨c, rfl, hchecks⟩
    exact ⟨_, _, ⟨c, rfl, hchecks⟩, rfl⟩
  · rintro s call f ⟨c, rfl, hchecks⟩
    obtain ⟨c', hcheck, hkept⟩ := hchecks.check hrange f
    refine ⟨_, .ok, f.materialize, ⟨c', rfl, hkept⟩, rfl, ?_⟩
    rw [Stage.process, EnvelopeCheck.process_of_check hcheck]
    rfl

theorem forwards_scripted {s : Scripted} (hturns : s.turns = [])
    (hafter : s.afterwards = .forward) : Forwards Stage.behavior (.scripted s) := by
  refine ⟨fun t => t = .scripted s, forwarder_of_single ?_ ?_ ?_, rfl⟩
  · rintro t result t' rfl hstart
    simp only [Stage.start, Scripted.start] at hstart
    split at hstart <;> cases hstart
    rfl
  · rintro t call rfl
    refine ⟨_, .noData, rfl, ?_⟩
    simp [Stage.process, Scripted.process, hturns, hafter, Attempt.map, Processed.map]
  · rintro t call f rfl
    refine ⟨_, .ok, f.materialize, rfl, rfl, ?_⟩
    simp [Stage.process, Scripted.process, hturns, hafter, Attempt.map, Processed.map]

end Pipeline
end Oscilloscope
