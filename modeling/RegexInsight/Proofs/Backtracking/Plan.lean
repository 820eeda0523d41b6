import Mathlib
import RegexInsight.Backtracking.Verdict
import RegexInsight.Proofs.Backtracking.Attack

/-! # The plan of a probe

    A plan doubles a count until the input is as long as the limit.
    Nothing but the growth of the input ends this loop: an input has at
    least as many characters as its unit is repeated, since no attack has
    an empty unit.  So the rounds that are missing to the limit bound the
    length of the loop, and a plan is the shortest doubling sequence that
    reaches the limit. -/

namespace RegexInsight

namespace Attack

variable {a : Attack} {base limit fuel count count' : Nat} {plan : List Nat}

/-! ## Section 1: Sizes -/

theorem length_build (a : Attack) (count : Nat) : (a.build count).length = a.size count := by
  simp [build, size, Nat.mul_comm, Nat.add_assoc]

/-- Every repetition adds a character or more. -/
theorem le_size (hunit : a.unit ≠ []) (count : Nat) : count ≤ a.size count := by
  have hpos : 0 < a.unit.length := List.length_pos_iff.mpr hunit
  have hle : 1 * count ≤ a.unit.length * count := Nat.mul_le_mul_right count hpos
  unfold size
  omega

theorem size_lt_size (hunit : a.unit ≠ []) (h : count < count') : a.size count < a.size count' := by
  have hpos : 0 < a.unit.length := List.length_pos_iff.mpr hunit
  have hlt : a.unit.length * count < a.unit.length * count' := Nat.mul_lt_mul_of_pos_left h hpos
  unfold size
  omega

/-! ## Section 2: The loop -/

/-- The course of the loop from a count on, with the counts that it goes
    through: it goes on as long as the input is too short, however many
    rounds that takes. -/
inductive Doubles (a : Attack) (limit : Nat) : Nat → List Nat → Prop where
  | stop {count : Nat} (hend : a.unit = [] ∨ limit ≤ a.size count) : Doubles a limit count [count]
  | double {count : Nat} {later : List Nat} (hunit : a.unit ≠ []) (hshort : a.size count < limit)
      (hlater : Doubles a limit (2 * count) later) : Doubles a limit count (count :: later)

/-- A count that is not zero grows in each round, so the loop ends after as
    many rounds as are missing to the limit. -/
theorem doubles_planFrom (hcount : 1 ≤ count) (hfuel : limit ≤ fuel + count) :
    a.Doubles limit count (planFrom a limit fuel count) := by
  induction fuel generalizing count with
  | zero =>
    refine .stop ?_
    by_cases hunit : a.unit = []
    · exact .inl hunit
    · have hle := le_size hunit count
      exact .inr (by omega)
  | succ fuel ih =>
    unfold planFrom
    split
    next hend => exact .stop (by simpa using hend)
    next hgoes =>
      have hgoes : a.unit ≠ [] ∧ a.size count < limit := by simpa using hgoes
      exact .double hgoes.1 hgoes.2 (ih (by omega) (by omega))

/-- The loop goes through the doubles of its first count, up to the first
    one whose input is long enough. -/
theorem Doubles.exists_eq_map (h : a.Doubles limit count plan) (hunit : a.unit ≠ []) :
    ∃ m, plan = (List.range (m + 1)).map (fun i => 2 ^ i * count) ∧
      (∀ i < m, a.size (2 ^ i * count) < limit) ∧ limit ≤ a.size (2 ^ m * count) := by
  induction h with
  | stop hend => exact ⟨0, by simp, nofun, by simpa [hunit] using hend⟩
  | @double count later _ hshort _ ih =>
    obtain ⟨m, rfl, hbefore, hreaches⟩ := ih
    have hpow : ∀ i, 2 ^ i * (2 * count) = 2 ^ (i + 1) * count := fun i => by
      rw [pow_succ, Nat.mul_assoc]
    simp only [hpow] at hbefore hreaches ⊢
    refine ⟨m + 1, ?_, fun i hi => ?_, hreaches⟩
    · rw [@List.range_succ_eq_map (m + 1), List.map_cons, List.map_map]
      simp [Function.comp_def]
    · cases i with
      | zero => simpa using hshort
      | succ i => exact hbefore i (by omega)

/-- A plan that doubles its base `m` times, where `m` is the least number of
    doublings whose input reaches the limit. -/
structure IsMinimalPlan (a : Attack) (base limit : Nat) (plan : List Nat) (m : Nat) : Prop where
  /-- The loop that makes the plan comes to an end, and with this plan. -/
  ends : a.Doubles limit base plan
  counts : plan = (List.range (m + 1)).map fun i => 2 ^ i * base
  short : ∀ i < m, (a.build (2 ^ i * base)).length < limit
  reaches : limit ≤ (a.build (2 ^ m * base)).length
  least : ∀ k, limit ≤ a.size (2 ^ k * base) → m ≤ k
  increasing : (plan.map a.size).Pairwise (· < ·)

theorem exists_isMinimalPlan (hunit : a.unit ≠ []) (hbase : 1 ≤ base) (limit : Nat) :
    ∃ m, a.IsMinimalPlan base limit (a.plan base limit) m := by
  have hends : a.Doubles limit base (a.plan base limit) :=
    doubles_planFrom hbase (Nat.le_add_right _ _)
  obtain ⟨m, hcounts, hshort, hreaches⟩ := hends.exists_eq_map hunit
  refine ⟨m, hends, hcounts, fun i hi => ?_, ?_, fun k hk => ?_, ?_⟩
  · rw [length_build]
    exact hshort i hi
  · rw [length_build]
    exact hreaches
  · by_contra hlt
    exact absurd hk (Nat.not_le.mpr (hshort k (Nat.not_le.mp hlt)))
  · rw [hcounts, List.map_map, List.pairwise_map]
    refine List.pairwise_lt_range.imp fun {i j} hij => size_lt_size hunit ?_
    exact Nat.mul_lt_mul_of_pos_right (Nat.pow_lt_pow_right Nat.one_lt_two hij) hbase

end Attack

/-! ## Section 3: Units -/

theorem firstNonempty_ne_nil (texts : List (List CodePoint)) : firstNonempty texts ≠ [] := by
  by_cases h : ∃ text ∈ texts, text ≠ []
  · exact (firstNonempty_spec h).2
  · have hnone : texts.find? (fun text => !text.isEmpty) = none := by
      simpa using h
    rw [firstNonempty, hnone]
    exact List.cons_ne_nil _ _

namespace Pattern

variable {p : Pattern} {site : Option RiskSite} {seed : List CodePoint}

/-- Whatever is attacked, the unit has a character. -/
theorem unit_attack_ne_nil (p : Pattern) (site : Option RiskSite) (seed : List CodePoint) :
    (p.attack site seed).unit ≠ [] := by
  unfold attack
  split
  · exact firstNonempty_ne_nil _
  · exact firstNonempty_ne_nil _

theorem eq_attack_of_prepareAttack {attack : Attack}
    (h : p.prepareAttack site seed = .ok attack) : attack = p.attack site seed := by
  unfold prepareAttack at h
  split at h
  · obtain ⟨⟨⟩, -, hattack⟩ := bind_eq_ok_iff.mp h
    exact (Except.ok.inj hattack).symm
  · exact (Except.ok.inj h).symm

end Pattern

/-! ## Section 4: Analyses -/

/-- Attempts are made for the counts of a plan in order, for all of them if
    the run finishes. -/
theorem ProbeRun.calls_fromStep {α : Type} [LE α] [DecidableLE α] [Sub α] [Div α] [NatCast α]
    [OfNat α 0] (bench : Bench α) (size : Nat → Nat) (deadline : α) (made : Nat)
    (plan : List Nat) :
    (fromStep bench size deadline made plan).calls.map AttemptCall.repetitions <+: plan ∧
      ((fromStep bench size deadline made plan).ending = .finished →
        (fromStep bench size deadline made plan).calls.map AttemptCall.repetitions = plan) := by
  induction plan generalizing made with
  | nil => exact ⟨List.nil_prefix, fun _ => rfl⟩
  | cons repetitions rest ih =>
    have hone : [repetitions] <+: repetitions :: rest :=
      List.cons_prefix_cons.mpr ⟨rfl, List.nil_prefix⟩
    unfold fromStep
    dsimp only
    split
    next => exact ⟨List.nil_prefix, nofun⟩
    next =>
      split
      next =>
        obtain ⟨hpart, hall⟩ := ih (made + 1)
        exact ⟨List.cons_prefix_cons.mpr ⟨rfl, hpart⟩,
          fun hfinished => congrArg (repetitions :: ·) (hall hfinished)⟩
      all_goals exact ⟨hone, nofun⟩

/-- Settings that pass their checks repeat the unit in the first attempt,
    whatever budget is set later. -/
theorem ProbeConfig.one_le_baseRepetitions {settings : ProbeSettings} {config config' : ProbeConfig}
    {seconds : Option Float} (hcheck : settings.check = .ok config)
    (hbudget : config.withBudget seconds = .ok config') : 1 ≤ config'.baseRepetitions := by
  have hbase : 1 ≤ config.baseRepetitions := by
    -- the base is checked second
    obtain ⟨budget, -, hcheck⟩ := bind_eq_ok_iff.mp hcheck
    obtain ⟨base, hbase, hcheck⟩ := bind_eq_ok_iff.mp hcheck
    obtain ⟨length, -, hcheck⟩ := bind_eq_ok_iff.mp hcheck
    obtain ⟨threshold, -, hcheck⟩ := bind_eq_ok_iff.mp hcheck
    obtain ⟨method, -, hconfig⟩ := bind_eq_ok_iff.mp hcheck
    obtain rfl := Except.ok.inj hconfig
    unfold ProbeSettings.checkBase at hbase
    split at hbase
    next => simp at hbase
    next hpositive =>
      obtain rfl := Except.ok.inj hbase
      show 1 ≤ settings.baseRepetitions.toNat
      omega
  -- a budget that is set later leaves the base as it is
  have hsame : config'.baseRepetitions = config.baseRepetitions := by
    unfold withBudget at hbudget
    split at hbudget
    next => rw [Except.ok.inj hbudget]
    next =>
      split at hbudget
      next => simp at hbudget
      next =>
        split at hbudget
        next => simp at hbudget
        next => rw [← Except.ok.inj hbudget]
  rw [hsame]
  exact hbase

namespace Pattern

/-- What a probe attacks with, and what it runs. -/
theorem of_backtracking_probed {p : Pattern} {config : ProbeConfig}
    {bench : Except String (Bench Float)} {seed : List CodePoint} {findings : Findings}
    {attack : Attack} {run : ProbeRun Float} {growth : Growth Float}
    (h : p.backtracking config bench seed = .ok (.probed findings attack run growth)) :
    p.prepareAttack p.assess.riskiest? seed = .ok attack ∧
      ∃ bench', bench = .ok bench' ∧ run = .ofPlan bench' attack config.budgetSeconds
        (attack.plan config.baseRepetitions config.maxInputLength) := by
  unfold backtracking at h
  split at h
  next => simp at h
  next =>
    split at h
    next => simp at h
    next bench' =>
      cases hattack : p.prepareAttack p.assess.riskiest? seed with
      | error e => simp [hattack, Except.map] at h
      | ok prepared =>
        rw [hattack] at h
        obtain ⟨-, rfl, rfl, -⟩ := BacktrackVerdict.probed.inj (Except.ok.inj h)
        exact ⟨rfl, bench', rfl, rfl⟩

/-- A plan is the shortest doubling sequence from its base to the limit, for
    every attack whose unit is not empty.  No attack has an empty unit, so
    every probe follows such a plan, up to its end unless something stops
    the run. -/
theorem plan_minimal :
    (∀ (a : Attack) (base limit : Nat), a.unit ≠ [] → 1 ≤ base →
      ∃ m, a.IsMinimalPlan base limit (a.plan base limit) m) ∧
    (∀ (p : Pattern) (site : Option RiskSite) (seed : List CodePoint),
      (p.attack site seed).unit ≠ [] ∧
        ∀ attack, p.prepareAttack site seed = .ok attack → attack.unit ≠ []) ∧
    ∀ (p : Pattern) (config : ProbeConfig) (bench : Except String (Bench Float))
      (seed : List CodePoint) (findings : Findings) (attack : Attack) (run : ProbeRun Float)
      (growth : Growth Float), 1 ≤ config.baseRepetitions →
        p.backtracking config bench seed = .ok (.probed findings attack run growth) →
          ∃ plan m, attack.IsMinimalPlan config.baseRepetitions config.maxInputLength plan m ∧
            run.calls.map AttemptCall.repetitions <+: plan ∧
            (run.ending = .finished → run.calls.map AttemptCall.repetitions = plan) := by
  have hunit : ∀ (p : Pattern) (site : Option RiskSite) (seed : List CodePoint) (attack : Attack),
      p.prepareAttack site seed = .ok attack → attack.unit ≠ [] := by
    intro p site seed attack hattack
    rw [eq_attack_of_prepareAttack hattack]
    exact unit_attack_ne_nil p site seed
  refine ⟨fun a base limit hne hbase => a.exists_isMinimalPlan hne hbase limit,
    fun p site seed => ⟨unit_attack_ne_nil p site seed, hunit p site seed⟩, ?_⟩
  -- a probe runs the attack that was prepared, whose unit is not empty
  intro p config bench seed findings attack run growth hbase hverdict
  obtain ⟨hattack, bench', -, rfl⟩ := of_backtracking_probed hverdict
  obtain ⟨m, hplan⟩ := attack.exists_isMinimalPlan (hunit p _ seed attack hattack) hbase
    config.maxInputLength
  exact ⟨_, m, hplan, ProbeRun.calls_fromStep _ _ _ _ _⟩

/-- A bench on which no attempt ends before its ceiling. -/
def stuckBench : Bench Float where
  start := 0
  clock _ := 0
  attempt _ _ := .ceilingExceeded

/-- Four doublings of eight repetitions reach a limit of 129 characters; and
    the probe of a nested quantifier follows a plan up to the standard
    limit. -/
theorem plan_minimal_of_nested :
    (∃ m, (⟨[], [97], [33]⟩ : Attack).IsMinimalPlan 8 129 [8, 16, 32, 64, 128] m) ∧
      ∃ p, parse "(a+)+$".toList = .ok p ∧ ∃ findings attack run growth,
        p.backtracking .standard (.ok stuckBench) [] =
            .ok (.probed findings attack run growth) ∧
          ∃ plan m, attack.IsMinimalPlan 8 1000000 plan m ∧
            run.calls.map AttemptCall.repetitions <+: plan := by
  obtain ⟨hplans, -, hprobes⟩ := plan_minimal
  refine ⟨hplans ⟨[], [97], [33]⟩ 8 129 (List.cons_ne_nil _ _) (by decide), ?_⟩
  have hcheck : (parse "(a+)+$".toList).toOption.any (fun p => p.assess.score != 0 &&
      (p.prepareAttack p.assess.riskiest? []).toOption == some ⟨[], [97], [33]⟩) = true := by
    decide +kernel
  obtain ⟨p, hp, hcheck⟩ := exists_of_check hcheck
  simp only [Bool.and_eq_true, bne_iff_ne, ne_eq, beq_iff_eq] at hcheck
  obtain ⟨hscore, hattack⟩ := hcheck
  -- the attack that the check computes is the one that is probed
  have hverdict : p.backtracking .standard (.ok stuckBench) [] =
      .ok (p.probe .standard stuckBench ⟨[], [97], [33]⟩) := by
    cases hprepared : p.prepareAttack p.assess.riskiest? [] with
    | error e => simp [hprepared, Except.toOption] at hattack
    | ok attack =>
      obtain rfl : attack = ⟨[], [97], [33]⟩ := by
        simpa [hprepared, Except.toOption] using hattack
      simp only [backtracking, beq_eq_false_iff_ne.mpr hscore, Bool.false_and, Bool.false_eq_true,
        if_false, hprepared, Except.map]
  obtain ⟨plan, m, hplan, hcalls, -⟩ := hprobes p .standard (.ok stuckBench) [] _ _ _ _
    (by decide) hverdict
  exact ⟨p, hp, _, _, _, _, hverdict, plan, m, hplan, hcalls⟩

end Pattern

end RegexInsight
