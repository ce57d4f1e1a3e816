import Oscilloscope.Stage

/-!
# Oscilloscope.Stage.Scripted

A stage that follows a script, for driving a pipeline through every kind of behaviour.

* `Turn` is what one call does: answer with a result, wait for the stop request, or break off.
* `Scripted` holds the turns to come and what happens after the last one.
-/

namespace Oscilloscope

inductive Turn where
  | answer (result : StageResult)
  /-- Wait for a stop request and then answer `ok`. -/
  | spin
  | panic
deriving DecidableEq

/-- What the calls after the script do. -/
inductive Afterwards where
  /-- Hand the frame on unchanged. -/
  | forward
  | act (turn : Turn)
deriving DecidableEq

structure Scripted where
  name : String
  onStart : Turn := .answer .ok
  /-- The turns to come, each with the number of frames to make. -/
  turns : List (Turn × Nat) := []
  afterwards : Afterwards := .forward
  panicsOnStop : Bool := false
  /-- The number of the next frame made from nothing. -/
  nextSequence : UInt64 := 0

namespace Scripted

/-- The `k`-th frame of a call is stamped with the call, the stage and `k`. -/
def stamp (call : Call) (k : Nat) : UInt64 :=
  UInt64.ofNat (call.iteration * 1000 + call.stageIndex * 100 + k)

/-- `n` frames: copies of the input frame, or new ones of a single zero if there is none. -/
def make (s : Scripted) (call : Call) (n : Nat) : Option Frame → List Frame × Scripted
  | some f =>
    ((List.range n).map fun k => { f.materialize with timestamp := stamp call k }, s)
  | none =>
    ((List.range n).map fun k =>
      { Frame.zeros 1 1 with
        sequence := s.nextSequence + UInt64.ofNat k, timestamp := stamp call k },
     { s with nextSequence := s.nextSequence + UInt64.ofNat n })

/-- Answer `result` after making `n` frames. A call that makes none takes its frame only if it
answers `ok`. -/
def answer (s : Scripted) (call : Call) (batch : List Frame) (result : StageResult) (n : Nat) :
    Processed Scripted :=
  if n = 0 then ⟨s, result, if result = .ok then batch.tail else batch, []⟩
  else
    let (made, s) := s.make call n batch.head?
    ⟨s, result, batch.tail, made⟩

def take (s : Scripted) (call : Call) (batch : List Frame) (turn : Turn) (n : Nat) :
    Attempt (Processed Scripted) :=
  match turn with
  | .answer result => .returned (s.answer call batch result n)
  | .spin => if call.stopRequested then .returned (s.answer call batch .ok n) else .waiting
  | .panic => .panicked

def process (s : Scripted) (call : Call) (batch : List Frame) : Attempt (Processed Scripted) :=
  match s.turns with
  | (turn, n) :: turns => { s with turns }.take call batch turn n
  | [] =>
    match s.afterwards with
    | .act turn => s.take call batch turn 0
    | .forward =>
      match batch with
      | [] => .returned ⟨s, .noData, [], []⟩
      | f :: left => .returned ⟨s, .ok, left, [f.materialize]⟩

def start (s : Scripted) : Attempt (StageResult × Scripted) :=
  match s.onStart with
  | .answer result => .returned (result, s)
  | .spin => .waiting
  | .panic => .panicked

def stop (s : Scripted) : Attempt Scripted := if s.panicsOnStop then .panicked else .returned s

/-- Whether a call without a frame has nothing to do, now and later. -/
def isQuiet (s : Scripted) : Bool :=
  s.turns.isEmpty &&
    (s.afterwards == .forward || s.afterwards == .act (.answer .noData))

end Scripted

end Oscilloscope
