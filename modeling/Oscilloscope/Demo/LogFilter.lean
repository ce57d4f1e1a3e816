/-!
# Oscilloscope.Demo.LogFilter

Which log lines are shown.

A filter is a list of rules with commas between them. A rule gives the least severe level that is
shown: `level` for everything, `target=level` for the lines of one part, and `target` alone for all
lines of that part. The rule with the longest target that begins the target of a line decides; of
two rules with one target the last. Without any rule only errors are shown.
-/

namespace Oscilloscope
namespace Demo

inductive Level where
  | off
  | error
  | warn
  | info
  | debug
  | trace
deriving DecidableEq, Repr

namespace Level

def all : List Level := [off, error, warn, info, debug, trace]

def name : Level → String
  | off => "off"
  | error => "error"
  | warn => "warn"
  | info => "info"
  | debug => "debug"
  | trace => "trace"

/-- From nothing to everything. -/
def rank : Level → Nat
  | off => 0
  | error => 1
  | warn => 2
  | info => 3
  | debug => 4
  | trace => 5

/-- A level by its name in any case, or by its rank. -/
def ofText? (s : String) : Option Level :=
  all.find? fun l => l.name == s.toLower || toString l.rank == s

end Level

/-- One rule of a filter. -/
structure Rule where
  target : String
  level : Level
deriving DecidableEq

/-- Read a rule. One with more to it than a target and a level applies to no line. -/
def Rule.ofText? (s : String) : Option Rule :=
  match s.splitOn "=" with
  | [word] =>
    match Level.ofText? word with
    | some level => some ⟨"", level⟩
    | none => if word.contains '[' then none else some ⟨word, .trace⟩
  | [target, ""] => if target.contains '[' then none else some ⟨target, .trace⟩
  | [target, level] =>
    if target.contains '[' then none else (Level.ofText? level).map (⟨target, ·⟩)
  | _ => none

/-- The rules of a filter, in order. -/
def rulesOf (filter : String) : List Rule :=
  match (filter.splitOn ",").filterMap fun s => if s = "" then none else Rule.ofText? s with
  | [] => [⟨"", .error⟩]
  | rules => rules

/-- The rule that decides about the lines of `target`. -/
def deciding? (rules : List Rule) (target : String) : Option Rule :=
  rules.foldl (fun best r =>
    if r.target.toList.isPrefixOf target.toList then
      match best with
      | some b => if b.target.length ≤ r.target.length then some r else best
      | none => some r
    else best) none

/-- Whether a filter shows a line of a level. -/
def shows (filter target : String) (level : Level) : Bool :=
  match deciding? (rulesOf filter) target with
  | some r => level.rank ≤ r.level.rank
  | none => false

end Demo
end Oscilloscope
