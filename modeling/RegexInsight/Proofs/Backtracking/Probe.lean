import Mathlib
import RegexInsight.Backtracking.Verdict

/-! # The course of a probe

    A probe takes the steps of its plan in order.  As long as time remains
    and attempts complete, every step leaves a sample; the first step of
    which this fails ends the run.  What a run measures, calls and ends
    with is said here step by step, for all clocks and all outcomes of
    attempts.  Times are exact numbers, those of an ordered field. -/

namespace RegexInsight

/-! ## Section 1: The steps of a plan

    A step is given by its repetitions and the number of attempts made
    before it. -/

namespace Bench

variable {α : Type} [Field α] [LinearOrder α] (bench : Bench α) (attack : Attack) (budget : α)
  (planned : Nat)

/-- What remains until the deadline, by the number of attempts made. -/
def remaining (made : Nat) : α :=
  bench.start + budget - bench.clock made

/-- Some time remains. -/
def hasTime (step : Nat × Nat) : Bool :=
  0 < bench.remaining budget step.2

/-- An equal part of what remains for each of the steps still to make. -/
def share (made : Nat) : α :=
  bench.remaining budget made / ((planned - made : Nat) : α)

/-- The attempt that a step asks for, with its share as the ceiling. -/
def callOf (step : Nat × Nat) : AttemptCall α where
  repetitions := step.1
  size := attack.size step.1
  ceiling := bench.share budget planned step.2
  deadline := bench.start + budget

/-- Time remains for a step, and its attempt completes and leaves a
    sample. -/
def Completes (step : Nat × Nat) (sample : Sample α) : Prop :=
  0 < bench.remaining budget step.2 ∧
    ∃ elapsed, bench.attempt step.2 (bench.callOf attack budget planned step) =
      .completed elapsed ∧ sample = ⟨attack.size step.1, elapsed⟩

/-- How a run ends at a step that does not complete. -/
def endingAt (step : Nat × Nat) : ProbeEnding α :=
  if bench.remaining budget step.2 ≤ 0 then .exhausted
  else
    let call := bench.callOf attack budget planned step
    match bench.attempt step.2 call with
    | .completed _ => .finished
    | .ceilingExceeded => .aborted call.size call.ceiling
    | .budgetExhausted => .exhausted
    | .failed error => .failed error

end Bench

namespace ProbeRun

/-! ## Section 2: The shape of a run -/

section Shape

variable {α : Type} [Field α] [LinearOrder α] {bench : Bench α} {attack : Attack} {budget : α}
  {planned k : Nat} {steps : List (Nat × Nat)} {run : ProbeRun α}

/-- A run of some steps of which the first `k` complete, and the next one
    does not. -/
structure Follows (bench : Bench α) (attack : Attack) (budget : α) (planned : Nat)
    (steps : List (Nat × Nat)) (run : ProbeRun α) (k : Nat) : Prop where
  length_le : k ≤ steps.length
  /-- The samples are those of the first steps, in order. -/
  samples : List.Forall₂ (bench.Completes attack budget planned) (steps.take k) run.samples
  next : ∀ step ∈ steps[k]?, ∀ sample, ¬ bench.Completes attack budget planned step sample
  /-- Attempts are made for the first steps, and for the next one if time
      remains. -/
  calls : run.calls = (steps.take k ++ steps[k]?.toList.filter (bench.hasTime budget)).map
    (bench.callOf attack budget planned)
  /-- The next step decides how the run ends. -/
  ending : run.ending = steps[k]?.elim .finished (bench.endingAt attack budget planned)

/-- What the run does at a step, with the call that the step asks for. -/
theorem fromStep_cons (bench : Bench α) (attack : Attack) (budget : α) (made repetitions : Nat)
    (rest : List Nat) :
    fromStep bench attack.size (bench.start + budget) made (repetitions :: rest) =
      let call := bench.callOf attack budget (made + 1 + rest.length) (repetitions, made)
      if bench.remaining budget made ≤ 0 then .stop .exhausted
      else
        match bench.attempt made call with
        | .completed elapsed =>
          .measured call elapsed
            (fromStep bench attack.size (bench.start + budget) (made + 1) rest)
        | .ceilingExceeded => .last call (.aborted call.size call.ceiling)
        | .budgetExhausted => .last call .exhausted
        | .failed error => .last call (.failed error) := by
  have hshare : made + 1 + rest.length - made = rest.length + 1 := by omega
  simp only [Bench.callOf, Bench.share, hshare]
  rfl

/-- A step that completes is measured, and the run goes on. -/
theorem fromStep_of_completes {made repetitions : Nat} {rest : List Nat} {elapsed : α}
    (htime : 0 < bench.remaining budget made)
    (houtcome : bench.attempt made
      (bench.callOf attack budget (made + 1 + rest.length) (repetitions, made)) =
        .completed elapsed) :
    fromStep bench attack.size (bench.start + budget) made (repetitions :: rest) =
      .measured (bench.callOf attack budget (made + 1 + rest.length) (repetitions, made)) elapsed
        (fromStep bench attack.size (bench.start + budget) (made + 1) rest) := by
  simp only [fromStep_cons, if_neg (not_le.mpr htime), houtcome]

/-- A step that does not complete ends the run, and an attempt was made if
    time remained. -/
theorem fromStep_of_not_completes {made repetitions : Nat} {rest : List Nat}
    (hstep : ∀ sample, ¬ bench.Completes attack budget (made + 1 + rest.length)
      (repetitions, made) sample) :
    fromStep bench attack.size (bench.start + budget) made (repetitions :: rest) =
      ⟨[], ([(repetitions, made)].filter (bench.hasTime budget)).map
          (bench.callOf attack budget (made + 1 + rest.length)),
        bench.endingAt attack budget (made + 1 + rest.length) (repetitions, made)⟩ := by
  rw [fromStep_cons]
  by_cases hlate : bench.remaining budget made ≤ 0
  · simp [Bench.endingAt, Bench.hasTime, hlate, not_lt.mpr hlate, stop]
  · have htime : 0 < bench.remaining budget made := not_le.mp hlate
    cases houtcome : bench.attempt made
        (bench.callOf attack budget (made + 1 + rest.length) (repetitions, made)) with
    | completed elapsed => exact absurd ⟨htime, elapsed, houtcome, rfl⟩ (hstep _)
    | _ => simp [Bench.endingAt, Bench.hasTime, hlate, htime, houtcome, last]

/-- A run from any step of a plan on follows its steps. -/
theorem exists_follows_fromStep (bench : Bench α) (attack : Attack) (budget : α) (rest : List Nat)
    (made : Nat) : ∃ k, Follows bench attack budget (made + rest.length) (rest.zipIdx made)
      (fromStep bench attack.size (bench.start + budget) made rest) k := by
  induction rest generalizing made with
  | nil => exact ⟨0, Nat.le_refl _, .nil, nofun, rfl, rfl⟩
  | cons repetitions rest ih =>
    have hplanned : made + (repetitions :: rest).length = made + 1 + rest.length := by
      rw [List.length_cons]
      omega
    rw [hplanned, List.zipIdx_cons]
    by_cases hstep : ∃ sample, bench.Completes attack budget (made + 1 + rest.length)
        (repetitions, made) sample
    · obtain ⟨sample, htime, elapsed, houtcome, -⟩ := hstep
      obtain ⟨k, htail⟩ := ih (made + 1)
      rw [fromStep_of_completes htime houtcome]
      exact ⟨k + 1, Nat.succ_le_succ htail.length_le,
        .cons ⟨htime, elapsed, houtcome, rfl⟩ htail.samples, htail.next,
        congrArg (_ :: ·) htail.calls, htail.ending⟩
    · have hstep := not_exists.mp hstep
      rw [fromStep_of_not_completes hstep]
      refine ⟨0, Nat.zero_le _, .nil, ?_, rfl, rfl⟩
      rintro step ⟨⟩
      exact hstep

/-- A run of a plan follows its steps. -/
theorem exists_follows_ofPlan (bench : Bench α) (attack : Attack) (budget : α) (plan : List Nat) :
    ∃ k, Follows bench attack budget plan.length plan.zipIdx (ofPlan bench attack budget plan) k := by
  have hfollows := exists_follows_fromStep bench attack budget plan 0
  rwa [Nat.zero_add] at hfollows

/-- The steps for which attempts are made are the first ones, and at most
    one more. -/
theorem attempted_eq_take (bench : Bench α) (budget : α) (steps : List (Nat × Nat)) (k : Nat) :
    ∃ m, k ≤ m ∧ m ≤ k + 1 ∧
    steps.take k ++ steps[k]?.toList.filter (bench.hasTime budget) = steps.take m := by
  cases hnext : steps[k]? with
  | none => exact ⟨k, Nat.le_refl _, Nat.le_succ _, List.append_nil _⟩
  | some step =>
    by_cases htime : bench.hasTime budget step = true
    · refine ⟨k + 1, Nat.le_succ _, Nat.le_refl _, ?_⟩
      rw [List.take_add_one, hnext, Option.toList_some, List.filter_cons_of_pos htime,
        List.filter_nil]
    · refine ⟨k, Nat.le_refl _, Nat.le_succ _, ?_⟩
      rw [Option.toList_some, List.filter_cons_of_neg htime, List.filter_nil, List.append_nil]

namespace Follows

variable (h : Follows bench attack budget planned steps run k)

include h

theorem samples_length : run.samples.length = k := by
  rw [← h.samples.length_eq, List.length_take, Nat.min_eq_left h.length_le]

/-- Time remains for the steps that complete. -/
theorem hasTime_of_mem {step : Nat × Nat} (hstep : step ∈ steps.take k) :
    bench.hasTime budget step = true := by
  obtain ⟨i, hi, rfl⟩ := List.getElem_of_mem hstep
  have hsample : i < run.samples.length := h.samples.length_eq ▸ hi
  exact decide_eq_true (h.samples.get hi hsample).1

theorem calls_length : k ≤ run.calls.length ∧ run.calls.length ≤ k + 1 := by
  obtain ⟨m, hle, hm, htake⟩ := attempted_eq_take bench budget steps k
  rw [h.calls, htake, List.length_map, List.length_take]
  exact ⟨le_min hle h.length_le, (Nat.min_le_left _ _).trans hm⟩

/-- Every attempt is made for the step in its place, while time remains. -/
theorem exists_step {i : Nat} {call : AttemptCall α} (hcall : run.calls[i]? = some call) :
    ∃ step, steps[i]? = some step ∧ bench.hasTime budget step = true ∧
      call = bench.callOf attack budget planned step := by
  obtain ⟨m, -, -, htake⟩ := attempted_eq_take bench budget steps k
  rw [h.calls, List.getElem?_map, Option.map_eq_some_iff] at hcall
  obtain ⟨step, hstep, rfl⟩ := hcall
  refine ⟨step, ?_, ?_, rfl⟩
  · rw [htake, List.getElem?_take] at hstep
    exact (Option.ite_none_right_eq_some.mp hstep).2
  · rcases List.mem_append.mp (List.mem_of_getElem? hstep) with hmem | hmem
    · exact h.hasTime_of_mem hmem
    · exact (List.mem_filter.mp hmem).2

/-- As long as steps complete and time remains, attempts are made. -/
theorem getElem?_calls {i : Nat} {step : Nat × Nat} (hi : i ≤ k) (hstep : steps[i]? = some step)
    (htime : bench.hasTime budget step = true) :
    run.calls[i]? = some (bench.callOf attack budget planned step) := by
  rw [h.calls, List.getElem?_map, Option.map_eq_some_iff]
  refine ⟨step, ?_, rfl⟩
  rcases Nat.lt_or_eq_of_le hi with hlt | rfl
  · rw [List.getElem?_append_left, List.getElem?_take_of_lt hlt, hstep]
    rwa [List.length_take, Nat.min_eq_left h.length_le]
  · rw [List.getElem?_append_right, hstep]
    · simp [htime, List.length_take, Nat.min_eq_left h.length_le]
    · exact List.length_take_le _ _

end Follows

/-! A plan puts the numbers of the attempts made beside its repetitions. -/

theorem zipIdx_getElem? {plan : List Nat} {i : Nat} (hi : i < plan.length) :
    plan.zipIdx[i]? = some (plan[i], i) := by
  simp [hi]

theorem of_zipIdx_getElem? {plan : List Nat} {i : Nat} {step : Nat × Nat}
    (h : plan.zipIdx[i]? = some step) : plan[i]? = some step.1 ∧ step.2 = i := by
  rw [List.getElem?_zipIdx, Option.map_eq_some_iff] at h
  obtain ⟨repetitions, hrepetitions, rfl⟩ := h
  exact ⟨hrepetitions, Nat.zero_add i⟩

namespace Follows

variable {plan : List Nat} (h : Follows bench attack budget plan.length plan.zipIdx run k)

include h

theorem length_le_plan : k ≤ plan.length := by
  have hle := h.length_le
  rwa [List.length_zipIdx] at hle

theorem remaining_pos {i : Nat} (hi : i < k) : 0 < bench.remaining budget i := by
  have hlt : i < plan.length := hi.trans_le h.length_le_plan
  have hstep : (plan[i], i) ∈ plan.zipIdx.take k := by
    refine List.mem_of_getElem? (i := i) ?_
    rw [List.getElem?_take_of_lt hi, zipIdx_getElem? hlt]
  exact of_decide_eq_true (h.hasTime_of_mem hstep)

/-- The call for a step that completes, or that time remains for after all
    others did. -/
theorem call_of_plan {i : Nat} (hi : i ≤ k) (hlt : i < plan.length)
    (htime : 0 < bench.remaining budget i) :
    run.calls[i]? = some (bench.callOf attack budget plan.length (plan[i], i)) :=
  h.getElem?_calls hi (zipIdx_getElem? hlt) (decide_eq_true htime)

end Follows

/-- When all steps of a plan complete, the run is finished, and its calls
    are those of the plan. -/
theorem Follows.of_all {plan : List Nat}
    (h : Follows bench attack budget plan.length plan.zipIdx run plan.length) :
    run.ending = .finished ∧
      run.calls = plan.zipIdx.map (bench.callOf attack budget plan.length) := by
  have hnone : plan.zipIdx[plan.length]? = none := by simp
  have htake : plan.zipIdx.take plan.length = plan.zipIdx := by simp
  constructor
  · rw [h.ending, hnone, Option.elim_none]
  · rw [h.calls, hnone, htake, Option.toList_none, List.filter_nil, List.append_nil]

end Shape

end ProbeRun

end RegexInsight
