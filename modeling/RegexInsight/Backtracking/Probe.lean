import RegexInsight.Backtracking.Attack
import RegexInsight.Backtracking.Growth

/-! # Probe Runs

    A probe makes one attempt per planned size under a common deadline.
    Before each attempt the clock is read; what remains until the deadline
    is shared equally among the attempts still to make, and the share is
    the ceiling of the next one.  The run ends early when nothing remains,
    when an attempt exceeds its ceiling, when the budget runs out during
    an attempt, and when an attempt fails.

    Where attempts are made is a parameter: a bench tells what the clock
    shows before each attempt and how each attempt ends. -/

namespace RegexInsight

/-- A count as a double. -/
instance natCastFloat : NatCast Float := ⟨Float.ofNat⟩

/-- One attempt to make. -/
structure AttemptCall (α : Type) where
  repetitions : Nat
  /-- The length of the input. -/
  size : Nat
  /-- The time that the attempt may take. -/
  ceiling : α
  /-- The time at which the whole run has to be over. -/
  deadline : α
  deriving DecidableEq, Repr

/-- How an attempt ends. -/
inductive AttemptOutcome (α : Type) where
  | completed (elapsed : α)
  | ceilingExceeded
  | budgetExhausted
  /-- The attempt failed, perhaps with a report. -/
  | failed (error : Option String)
  deriving DecidableEq, Repr

/-- Where attempts are made. -/
structure Bench (α : Type) where
  /-- The clock when the run is prepared. -/
  start : α
  /-- The clock before an attempt, by the number of attempts made. -/
  clock : Nat → α
  /-- The outcome of an attempt, by the number of attempts made. -/
  attempt : Nat → AttemptCall α → AttemptOutcome α

/-- How a run ends. -/
inductive ProbeEnding (α : Type) where
  /-- All planned attempts were completed. -/
  | finished
  /-- An attempt exceeded its ceiling. -/
  | aborted (size : Nat) (ceiling : α)
  /-- The budget ran out. -/
  | exhausted
  /-- An attempt failed, perhaps with a report. -/
  | failed (error : Option String)
  deriving DecidableEq, Repr

namespace ProbeEnding

variable {α : Type}

/-- The size and the ceiling of the attempt that was cut off. -/
def cutOff? : ProbeEnding α → Option (Nat × α)
  | aborted size ceiling => some (size, ceiling)
  | _ => none

def isExhausted : ProbeEnding α → Bool
  | exhausted => true
  | _ => false

/-- The report of a failed attempt; a failure without one leaves no trace. -/
def failure? : ProbeEnding α → Option String
  | failed error => error
  | _ => none

/-- What the ending adds to a report. -/
def note? : ProbeEnding α → Option String
  | failed error => error.map ("Probe attempt failed: " ++ ·)
  | exhausted => some "Budget exhausted before all probe sizes ran"
  | _ => none

end ProbeEnding

/-- A run: what was measured, what was called, and how it ended. -/
structure ProbeRun (α : Type) where
  samples : List (Sample α)
  calls : List (AttemptCall α)
  ending : ProbeEnding α
  deriving DecidableEq, Repr

namespace ProbeRun

variable {α : Type}

/-- A run that ends before its next attempt. -/
def stop (ending : ProbeEnding α) : ProbeRun α :=
  ⟨[], [], ending⟩

/-- A run whose next attempt is its last one. -/
def last (call : AttemptCall α) (ending : ProbeEnding α) : ProbeRun α :=
  ⟨[], [call], ending⟩

/-- A run that goes on after a completed attempt. -/
def measured (call : AttemptCall α) (elapsed : α) (later : ProbeRun α) : ProbeRun α :=
  ⟨⟨call.size, elapsed⟩ :: later.samples, call :: later.calls, later.ending⟩

variable [LE α] [DecidableLE α] [Sub α] [Div α] [NatCast α] [OfNat α 0]

/-- The run from a planned step on, with the number of attempts made
    before. -/
def fromStep (bench : Bench α) (size : Nat → Nat) (deadline : α) :
    Nat → List Nat → ProbeRun α
  | _, [] => .stop .finished
  | made, repetitions :: rest =>
    let remaining := deadline - bench.clock made
    if remaining ≤ 0 then .stop .exhausted
    else
      let call : AttemptCall α :=
        ⟨repetitions, size repetitions, remaining / ((rest.length + 1 : Nat) : α), deadline⟩
      match bench.attempt made call with
      | .completed elapsed =>
        .measured call elapsed (fromStep bench size deadline (made + 1) rest)
      | .ceilingExceeded => .last call (.aborted call.size call.ceiling)
      | .budgetExhausted => .last call .exhausted
      | .failed error => .last call (.failed error)

/-- The run of a plan within a budget. -/
def ofPlan [Add α] (bench : Bench α) (attack : Attack) (budget : α) (plan : List Nat) :
    ProbeRun α :=
  fromStep bench attack.size (bench.start + budget) 0 plan

end ProbeRun

end RegexInsight
