import Mathlib
import RegexInsight.Proofs.Backtracking.Sharing

/-! # The verdict on a probe

    A run is finished, or it is ended by one step for one reason.  The
    verdict keeps this reason in view: a run that was cut off is
    catastrophic, one with a failed attempt is never safe, and a rewrite is
    suggested only for what is not safe.  This needs no arithmetic, so it
    holds for times in doubles as well. -/

namespace RegexInsight

/-! ## Section 1: Endings -/

namespace ProbeEnding

variable {α : Type}

/-- What an ending sets: the cut-off, the exhausted budget, the reported
    failure. -/
def flags (e : ProbeEnding α) : List Bool :=
  [e.cutOff?.isSome, e.isExhausted, e.failure?.isSome]

end ProbeEnding

namespace ProbeRun.Follows

variable {α : Type} [Field α] [LinearOrder α] {bench : Bench α} {attack : Attack} {budget : α}
  {planned k : Nat} {steps : List (Nat × Nat)} {run : ProbeRun α}

/-- A run that a step ends is ended for one reason, if failures are
    reported. -/
theorem count_flags (h : Follows bench attack budget planned steps run k) (hlt : k < steps.length)
    (hreported : ∀ made call, bench.attempt made call ≠ .failed none) :
    run.ending.flags.count true = 1 := by
  have hstep := List.getElem?_eq_getElem hlt
  have hnext := h.next _ hstep
  rw [h.ending, hstep, Option.elim_some, Bench.endingAt]
  split
  next => rfl
  next hlate =>
    dsimp only
    split
    next elapsed houtcome => exact absurd ⟨not_le.mp hlate, elapsed, houtcome, rfl⟩ (hnext _)
    next => rfl
    next => rfl
    next error houtcome =>
      cases error with
      | none => exact absurd houtcome (hreported _ _)
      | some text => rfl

/-- A run is cut off at the first step that does not complete. -/
theorem of_cutOff? (h : Follows bench attack budget planned steps run k) {size : Nat}
    {ceiling : α} (hcut : run.ending.cutOff? = some (size, ceiling)) :
    ∃ step, steps[k]? = some step ∧ size = attack.size step.1 ∧
      ceiling = bench.share budget planned step.2 := by
  rw [h.ending] at hcut
  cases hstep : steps[k]? with
  | none => simp [hstep, ProbeEnding.cutOff?] at hcut
  | some step =>
    refine ⟨step, rfl, ?_⟩
    rw [hstep, Option.elim_some, Bench.endingAt] at hcut
    split at hcut
    next => simp [ProbeEnding.cutOff?] at hcut
    next =>
      dsimp only at hcut
      split at hcut
      all_goals simp_all [ProbeEnding.cutOff?, Bench.callOf]

end ProbeRun.Follows

/-! ## Section 2: Verdicts -/

namespace BacktrackVerdict

variable {α : Type}

/-- The report of a failed attempt of the probe. -/
def failure? : BacktrackVerdict α → Option String
  | probed _ _ run _ => run.ending.failure?
  | _ => none

/-- A verdict that hides no sign of danger. -/
structure IsGuarded (v : BacktrackVerdict α) : Prop where
  cutOff : v.cutOff?.isSome = true → v.risk = .catastrophic
  failed : v.failure?.isSome = true → v.risk ≠ .safe
  suggestion : v.suggestion?.isSome = true → v.risk ≠ .safe

/-- Whatever a run measured, its verdict is guarded. -/
theorem isGuarded_probed [LE α] [DecidableLE α] [Div α] (findings : Findings) (attack : Attack)
    (run : ProbeRun α) (scale : TimeScale α) (threshold floor : α) :
    (probed findings attack run (run.growth scale threshold floor)).IsGuarded where
  cutOff := by
    intro hcut
    have hshown : classifySamples threshold floor run.ending.cutOff?.isSome run.samples =
        .catastrophic := by
      have hcut : run.ending.cutOff?.isSome = true := hcut
      simp [classifySamples, hcut]
    simp [risk, ProbeRun.growth, ProbeRun.risk, hshown]
  failed := by
    intro hfailed
    have hfailed : run.ending.failure?.isSome = true := hfailed
    simp only [risk, ProbeRun.growth, ProbeRun.risk, hfailed, Bool.true_and]
    split
    next => exact nofun
    next hunsafe => simpa using hunsafe
  suggestion := by
    intro hsuggestion hsafe
    have hsafe : (run.growth scale threshold floor).risk = .safe := hsafe
    simp [suggestion?, hsafe] at hsuggestion

end BacktrackVerdict

/-- The verdict on every pattern is guarded, with times in doubles as
    well. -/
theorem Pattern.isGuarded_of_backtracking {p : Pattern} {config : ProbeConfig}
    {bench : Except String (Bench Float)} {seed : List CodePoint} {v : BacktrackVerdict Float}
    (h : p.backtracking config bench seed = .ok v) : v.IsGuarded := by
  unfold backtracking at h
  split at h
  next =>
    obtain rfl := Except.ok.inj h
    exact ⟨nofun, nofun, nofun⟩
  next =>
    split at h
    next =>
      obtain rfl := Except.ok.inj h
      exact ⟨nofun, nofun, fun _ => nofun⟩
    next bench =>
      cases hattack : p.prepareAttack p.assess.riskiest? seed with
      | error e => simp [hattack, Except.map] at h
      | ok attack =>
        rw [hattack] at h
        obtain rfl := Except.ok.inj h
        exact BacktrackVerdict.isGuarded_probed _ _ _ _ _ _

/-! ## Section 3: The documented run -/

namespace ProbeRun

section Documented

variable {α : Type} [Field α] [LinearOrder α]

/-- The run of a plan whose first `k` steps, and no more in a row, are
    reached in time and complete. -/
structure IsDocumented (bench : Bench α) (attack : Attack) (budget : α) (plan : List Nat)
    (run : ProbeRun α) (k : Nat) : Prop
    extends Follows bench attack budget plan.length plan.zipIdx run k where
  /-- At most one attempt is made for a step that does not complete. -/
  attempts : k ≤ run.calls.length ∧ run.calls.length ≤ k + 1
  /-- All attempts have the same deadline, and a part of what remains. -/
  ceilings : ∀ i call, run.calls[i]? = some call → call.deadline = bench.start + budget ∧
    0 < call.ceiling ∧ call.ceiling ≤ bench.remaining budget i
  finished : k = plan.length → run.ending.flags.count true = 0
  stopped : k < plan.length → run.ending.flags.count true = 1
  /-- A cut-off names the step that it happened at. -/
  cutOff : ∀ size ceiling, run.ending.cutOff? = some (size, ceiling) →
    ∃ repetitions, plan[k]? = some repetitions ∧ size = attack.size repetitions ∧
      ceiling = bench.share budget plan.length k
  /-- What the samples show is judged with the ending in view. -/
  guarded : ∀ findings scale threshold floor, (BacktrackVerdict.probed findings attack run
    (run.growth scale threshold floor)).IsGuarded

end Documented

/-- A bench on which all attempts complete but the second one. -/
def cutOffBench : Bench ℚ where
  start := 0
  clock made := made / 10
  attempt made _ := if made = 1 then .ceilingExceeded else .completed (1 / 20)

end ProbeRun

end RegexInsight
