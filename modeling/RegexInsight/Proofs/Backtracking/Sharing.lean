import Mathlib
import RegexInsight.Proofs.Backtracking.Probe

/-! # Sharing the budget

    The ceiling of an attempt is an equal part of what remains for each of
    the steps still to make.  An attempt that takes less leaves more for
    the later ones: when every attempt keeps within its ceiling, the
    shares never fall, and the last step still ends before the deadline. -/

namespace RegexInsight

/-! ## Section 1: Shares -/

namespace Bench

variable {α : Type} [Field α] [LinearOrder α] [IsStrictOrderedRing α] {bench : Bench α}
  {budget : α} {planned made : Nat}

/-- As many shares as there are steps to make are all that remains. -/
theorem mul_share (hmade : made < planned) :
    ((planned - made : Nat) : α) * bench.share budget planned made =
      bench.remaining budget made :=
  mul_div_cancel₀ _ (Nat.cast_ne_zero.mpr (Nat.sub_ne_zero_of_lt hmade))

theorem share_pos_iff (hmade : made < planned) :
    0 < bench.share budget planned made ↔ 0 < bench.remaining budget made :=
  div_pos_iff_of_pos_right (Nat.cast_pos.mpr (Nat.sub_pos_of_lt hmade))

theorem share_le_remaining (hmade : made < planned) (htime : 0 < bench.remaining budget made) :
    bench.share budget planned made ≤ bench.remaining budget made :=
  div_le_self htime.le (Nat.one_le_cast.mpr (Nat.sub_pos_of_lt hmade))

/-- The time between two readings of the clock is at most the share of the
    step between them. -/
def Keeps (bench : Bench α) (budget : α) (planned made : Nat) : Prop :=
  bench.clock (made + 1) - bench.clock made ≤ bench.share budget planned made

/-- A step that keeps to its share leaves the shares of the later ones. -/
theorem Keeps.mul_share_le (h : bench.Keeps budget planned made) (hmade : made < planned) :
    ((planned - (made + 1) : Nat) : α) * bench.share budget planned made ≤
      bench.remaining budget (made + 1) := by
  have hspent : bench.remaining budget (made + 1) =
      bench.remaining budget made - (bench.clock (made + 1) - bench.clock made) := by
    simp only [remaining]
    ring
  have hsteps : planned - made = planned - (made + 1) + 1 := by omega
  have hall : ((planned - made : Nat) : α) * bench.share budget planned made =
      bench.remaining budget made := mul_share hmade
  rw [hsteps, Nat.cast_succ, add_one_mul] at hall
  rw [hspent, ← hall]
  unfold Keeps at h
  linarith

/-- After a step that keeps to its share, the shares are no smaller. -/
theorem Keeps.share_le (h : bench.Keeps budget planned made) (hmade : made + 1 < planned) :
    bench.share budget planned made ≤ bench.share budget planned (made + 1) := by
  have hpos : (0 : α) < ((planned - (made + 1) : Nat) : α) :=
    Nat.cast_pos.mpr (Nat.sub_pos_of_lt hmade)
  rw [share.eq_def bench budget planned (made + 1), le_div_iff₀' hpos]
  exact h.mul_share_le (Nat.lt_of_succ_lt hmade)

/-- While all steps keep to their shares, the shares do not fall. -/
theorem share_mono {earlier later : Nat}
    (hkeeps : ∀ i < later, bench.Keeps budget planned i) (hle : earlier ≤ later)
    (hlater : later < planned) :
    bench.share budget planned earlier ≤ bench.share budget planned later := by
  induction later, hle using Nat.le_induction with
  | base => exact le_rfl
  | succ i _ ih =>
    have hbefore := ih (fun j hj => hkeeps j (Nat.lt_succ_of_lt hj)) (Nat.lt_of_succ_lt hlater)
    exact hbefore.trans ((hkeeps i (Nat.lt_succ_self i)).share_le hlater)

end Bench

/-! ## Section 2: Fair runs -/

namespace ProbeRun

section Fair

variable {α : Type} [Field α] [LinearOrder α] {bench : Bench α} {attack : Attack} {budget : α}
  {plan : List Nat} {run : ProbeRun α} {k : Nat}

/-- Every attempt of a run completes and takes no longer than its ceiling,
    the time up to the next reading of the clock included. -/
def IsPaced (bench : Bench α) (run : ProbeRun α) : Prop :=
  ∀ i call, run.calls[i]? = some call →
    (∃ elapsed, bench.attempt i call = .completed elapsed) ∧
      bench.clock (i + 1) - bench.clock i ≤ call.ceiling

namespace Follows

variable (h : Follows bench attack budget plan.length plan.zipIdx run k)

include h

/-- The steps that complete in a paced run keep to their shares. -/
theorem keeps (hpaced : IsPaced bench run) {i : Nat} (hi : i < k) :
    bench.Keeps budget plan.length i :=
  (hpaced i _ (h.call_of_plan hi.le (hi.trans_le h.length_le_plan) (h.remaining_pos hi))).2

/-- In a paced run that begins in time, all steps complete. -/
theorem eq_length [IsStrictOrderedRing α] (hstart : 0 < bench.remaining budget 0)
    (hpaced : IsPaced bench run) : k = plan.length := by
  refine h.length_le_plan.antisymm (not_lt.mp fun hlt => ?_)
  -- time remains for the first step that does not complete
  have hfirst : 0 < bench.share budget plan.length 0 :=
    (Bench.share_pos_iff (Nat.zero_lt_of_lt hlt)).mpr hstart
  have hshare := hfirst.trans_le
    (Bench.share_mono (fun i hi => h.keeps hpaced hi) (Nat.zero_le k) hlt)
  have htime := (Bench.share_pos_iff hlt).mp hshare
  -- so that an attempt is made, and completes
  obtain ⟨⟨elapsed, houtcome⟩, -⟩ := hpaced k _ (h.call_of_plan le_rfl hlt htime)
  exact h.next _ (zipIdx_getElem? hlt) _ ⟨htime, elapsed, houtcome, rfl⟩

end Follows

/-- Budget sharing is fair and safe: when the run of a plan begins before
    its deadline and every attempt completes within its ceiling, the
    overhead of the loop included, then all steps run, the budget does not
    run out, the ceilings never fall below the first share or below an
    earlier one, and the whole run takes no longer than what remained. -/
theorem ofPlan_fair [IsStrictOrderedRing α] (bench : Bench α) (attack : Attack) (budget : α)
    (plan : List Nat) (hstart : bench.clock 0 < bench.start + budget)
    (hpaced : IsPaced bench (ofPlan bench attack budget plan)) :
    let run := ofPlan bench attack budget plan
    run.ending = .finished ∧ run.ending.isExhausted = false ∧
      run.calls.map AttemptCall.repetitions = plan ∧ run.samples.length = plan.length ∧
      run.calls.Pairwise (fun earlier later => earlier.ceiling ≤ later.ceiling) ∧
      (∀ call ∈ run.calls,
        (bench.start + budget - bench.clock 0) / (plan.length : α) ≤ call.ceiling) ∧
      bench.clock plan.length - bench.clock 0 ≤ bench.start + budget - bench.clock 0 := by
  have htime : 0 < bench.remaining budget 0 := sub_pos.mpr hstart
  -- a run at this pace makes every attempt of the plan
  obtain ⟨k, h⟩ := exists_follows_ofPlan bench attack budget plan
  obtain rfl : k = plan.length := h.eq_length htime hpaced
  obtain ⟨hending, hcalls⟩ := h.of_all
  have hmono : ∀ {i j : Nat}, i ≤ j → j < plan.length →
      bench.share budget plan.length i ≤ bench.share budget plan.length j :=
    fun hij hj => Bench.share_mono (fun m hm => h.keeps hpaced (hm.trans hj)) hij hj
  refine ⟨hending, ?_, ?_, h.samples_length, ?_, ?_, ?_⟩
  · rw [hending]
    rfl
  · rw [hcalls, List.map_map]
    exact List.zipIdx_map_fst 0 plan
  · rw [hcalls, List.pairwise_iff_getElem]
    intro i j hi hj hij
    simp only [List.length_map, List.length_zipIdx] at hj
    simpa [Bench.callOf] using hmono hij.le hj
  · intro call hcall
    rw [hcalls] at hcall
    obtain ⟨⟨repetitions, i⟩, hstep, rfl⟩ := List.mem_map.mp hcall
    exact hmono (Nat.zero_le i) (List.snd_lt_of_mem_zipIdx hstep)
  · rcases Nat.eq_zero_or_pos plan.length with hnone | hsome
    · rw [hnone, sub_self]
      exact htime.le
    · -- before the last attempt the whole share of one was left
      have hlast : plan.length - 1 + 1 = plan.length := Nat.sub_add_cancel hsome
      have hlt : plan.length - 1 < plan.length := Nat.sub_lt hsome Nat.one_pos
      have hleft := (h.keeps hpaced hlt).mul_share_le hlt
      rw [hlast, Nat.sub_self, Nat.cast_zero, zero_mul] at hleft
      exact sub_le_sub_right (sub_nonneg.mp hleft) _

end Fair

/-- A clock that shows the number of attempts made in sixths of the time, on
    which every attempt completes. -/
def steadyBench : Bench ℚ where
  start := 0
  clock made := made / 6
  attempt _ call := .completed (call.size / 100)

/-- Half of the budget is left over when each of three steps takes a sixth
    of it. -/
theorem ofPlan_fair_of_steady :
    steadyBench.clock 0 < steadyBench.start + 1 ∧
      IsPaced steadyBench (ofPlan steadyBench ⟨[], [97], [33]⟩ 1 [8, 16, 32]) ∧
      (ofPlan steadyBench ⟨[], [97], [33]⟩ 1 [8, 16, 32]).ending = .finished ∧
      steadyBench.clock 3 - steadyBench.clock 0 ≤ 1 := by
  have hstart : steadyBench.clock 0 < steadyBench.start + 1 := by norm_num [steadyBench]
  have hcalls : (ofPlan steadyBench ⟨[], [97], [33]⟩ 1 [8, 16, 32]).calls =
      [⟨8, 9, 1 / 3, 1⟩, ⟨16, 17, 5 / 12, 1⟩, ⟨32, 33, 2 / 3, 1⟩] := by
    norm_num [ofPlan, fromStep, steadyBench, Attack.size, measured, stop]
  have hpaced : IsPaced steadyBench (ofPlan steadyBench ⟨[], [97], [33]⟩ 1 [8, 16, 32]) := by
    intro i call hcall
    rw [hcalls] at hcall
    refine ⟨⟨_, rfl⟩, ?_⟩
    obtain ⟨hi, hget⟩ := List.getElem?_eq_some_iff.mp hcall
    change i < 3 at hi
    interval_cases i <;> obtain rfl := hget <;> norm_num [steadyBench]
  have hfair := ofPlan_fair steadyBench ⟨[], [97], [33]⟩ 1 [8, 16, 32] hstart hpaced
  refine ⟨hstart, hpaced, hfair.1, ?_⟩
  simpa [steadyBench] using hfair.2.2.2.2.2.2

end ProbeRun

end RegexInsight
