import Mathlib
import RegexInsight.Portability
import RegexInsight.Proofs.Engine.Routing
import RegexInsight.Proofs.Pattern.Move

/-! # Automaton-based dialects

    A dialect whose engine is an automaton rejects every construct that
    forces backtracking, so whatever it supports goes to a linear-time
    engine.  Nested quantifiers in a lookahead are no feature that a
    dialect could reject; they are traced back to the lookahead. -/

namespace RegexInsight

/-! ## Section 1: Verdicts -/

theorem FeatureFlag.mem_all (flag : FeatureFlag) : flag ∈ all := by
  cases flag <;> decide

/-- A supported profile sets no flag that the dialect rejects. -/
theorem Dialect.judge_eq_supported_iff {d : Dialect} {p : FeatureProfile} :
    d.judge p = .supported ↔ ∀ flag, p.sets flag = true → d.rejects p flag = false := by
  have hnone : d.judge p = .supported ↔ p.activeFlags.find? (d.rejects p) = none := by
    unfold judge
    split
    next flag hfind => simp [hfind]
    next hfind => simp [hfind]
  rw [hnone]
  simp [FeatureProfile.activeFlags, FeatureFlag.mem_all]

/-! ## Section 2: Reports -/

section Outcomes

variable {ε α β : Type}

/-- The results of a list of steps are those of its members. -/
theorem mem_of_mapM_eq_ok {f : α → Except ε β} {xs : List α} {ys : List β}
    (h : xs.mapM f = .ok ys) {y : β} (hy : y ∈ ys) : ∃ x ∈ xs, f x = .ok y := by
  induction xs generalizing ys with
  | nil =>
    obtain rfl : [] = ys := Except.ok.inj h
    simp at hy
  | cons x xs ih =>
    rw [List.mapM_cons] at h
    obtain ⟨first, hx, h⟩ := bind_eq_ok_iff.mp h
    obtain ⟨rest, hxs, h⟩ := bind_eq_ok_iff.mp h
    obtain rfl : first :: rest = ys := Except.ok.inj h
    rcases List.mem_cons.mp hy with rfl | hy
    · exact ⟨x, List.mem_cons_self, hx⟩
    · obtain ⟨x', hmem, hx'⟩ := ih hxs hy
      exact ⟨x', List.mem_cons_of_mem _ hmem, hx'⟩

end Outcomes

section Reports

variable {r : Registry} {p : FeatureProfile} {requested : Option (List String)}
  {report : PortabilityReport}

/-- A report repeats what the dialects of its ids say. -/
theorem Registry.judge_of_mem_verdicts (hcheck : r.check p requested = .ok report)
    {entry : String × Verdict} (hmem : entry ∈ report.verdicts) :
    ∃ d, r.get entry.1 = .ok d ∧ d.judge p = entry.2 := by
  -- every entry was made by asking the dialect of its id
  obtain ⟨ids, -, hreport⟩ := bind_eq_ok_iff.mp hcheck
  obtain ⟨entries, hentries, hreport⟩ := bind_eq_ok_iff.mp hreport
  obtain rfl : ⟨entries⟩ = report := Except.ok.inj hreport
  obtain ⟨target, -, hasked⟩ := mem_of_mapM_eq_ok hentries hmem
  obtain ⟨d, hd, hentry⟩ := bind_eq_ok_iff.mp hasked
  obtain rfl : (target, d.judge p) = entry := Except.ok.inj hentry
  exact ⟨d, hd, rfl⟩

theorem Registry.judge_of_verdict? (hcheck : r.check p requested = .ok report) {id : String}
    {verdict : Verdict} (hverdict : report.verdict? id = some verdict) :
    ∃ d, r.get id = .ok d ∧ d.judge p = verdict := by
  -- the verdict stands in an entry of this id
  obtain ⟨entry, hfind, rfl⟩ := Option.map_eq_some_iff.mp hverdict
  have hid : entry.1 = id := by
    have hkey := List.find?_some hfind
    simpa using hkey
  exact hid ▸ judge_of_mem_verdicts hcheck (List.mem_of_find?_eq_some hfind)

end Reports

/-! ## Section 3: What automata lack -/

/-- A lookahead that nests quantifiers is a lookahead. -/
theorem FeatureProfile.hasLookahead_of_nested {root : Node}
    (h : (ofNode root).lookaheadHasNestedQuantifier = true) :
    (ofNode root).hasLookahead = true := by
  obtain ⟨v, hv, htest⟩ := List.any_eq_true.mp h
  obtain ⟨hrepeating, hnested⟩ := Bool.and_eq_true_iff.mp htest
  obtain ⟨look, hlook, hahead, -⟩ := Node.exists_nested_visit_iff.mp ⟨v, hv, hrepeating, hnested⟩
  exact any_nodes.mpr ⟨look, hlook, hahead⟩

/-- A signal for a backtracking engine comes with a flag that no automaton
    supports. -/
theorem exists_automatonUnsupported {root : Node}
    (h : selectEngine (.ofNode root) = .backtracking) :
    ∃ flag ∈ Dialect.automatonUnsupported, (FeatureProfile.ofNode root).sets flag = true := by
  rcases selectEngine_eq_backtracking_iff.mp h with h | h | h | h | h | h | h
  · exact ⟨.backreference, by decide, h⟩
  · exact ⟨.conditional, by decide, h⟩
  · exact ⟨.atomicGroup, by decide, h⟩
  · exact ⟨.possessiveQuantifier, by decide, h⟩
  · exact ⟨.lookbehindVariableLength, by decide, h⟩
  · exact ⟨.lookahead, by decide, FeatureProfile.hasLookahead_of_nested h⟩
  · exact ⟨.recursion, by decide, h⟩

/-- An automaton that supports a tree needs no backtracking for it. -/
theorem Dialect.linearTime_of_judge {d : Dialect} (hd : d.unsupported = automatonUnsupported)
    {root : Node} (h : d.judge (.ofNode root) = .supported) :
    selectEngine (.ofNode root) = .linearTime := by
  rw [selectEngine_eq_linearTime_iff]
  intro hchoice
  obtain ⟨flag, hflag, hset⟩ := exists_automatonUnsupported hchoice
  have haccepts := judge_eq_supported_iff.mp h flag hset
  -- named groups are judged by their spelling, and are none of these flags
  have hrejects : d.rejects (.ofNode root) flag = d.unsupported.contains flag := by
    unfold rejects
    split
    · simp [automatonUnsupported] at hflag
    · rfl
  rw [hrejects, hd] at haccepts
  simp [hflag] at haccepts

/-! ## Section 4: The built-in registry -/

/-- What a built-in automaton supports, whichever dialects were asked for,
    goes to a linear-time engine. -/
theorem Pattern.linearTime_of_supported (p : Pattern) {d : Dialect}
    (hd : d ∈ [Dialect.rustRegex, Dialect.goRegexp, Dialect.re2])
    {requested : Option (List String)} {report : PortabilityReport}
    (hcheck : Registry.builtin.check p.profile requested = .ok report)
    (hverdict : report.verdict? d.id = some .supported) :
    selectEngine p.profile = .linearTime := by
  obtain ⟨asked, hget, hjudge⟩ := Registry.judge_of_verdict? hcheck hverdict
  have hbuiltin : ∀ d ∈ [Dialect.rustRegex, Dialect.goRegexp, Dialect.re2],
      Registry.builtin.get d.id = .ok d ∧ d.unsupported = Dialect.automatonUnsupported := by
    intro d hd
    simp only [List.mem_cons, List.not_mem_nil, or_false] at hd
    rcases hd with rfl | rfl | rfl
    all_goals exact ⟨rfl, rfl⟩
  obtain ⟨hsame, hunsupported⟩ := hbuiltin d hd
  obtain rfl : d = asked := Except.ok.inj (hsame.symm.trans hget)
  exact Dialect.linearTime_of_judge hunsupported hjudge

/-- Nested repetition under a name is supported by RE2 and is no reason to
    backtrack. -/
theorem Pattern.linearTime_of_supported_of_nested :
    ∃ p report, Pattern.parse "(?P<word>a+b?)+".toList = .ok p ∧
      Registry.builtin.check p.profile none = .ok report ∧
      report.verdict? "re2" = some .supported ∧
      selectEngine p.profile = .linearTime := by
  have hparse : (Pattern.parse "(?P<word>a+b?)+".toList).toOption.any (fun p =>
      (Registry.builtin.check p.profile none).toOption.any fun report =>
        report.verdict? "re2" == some .supported) = true := by decide +kernel
  obtain ⟨p, hp, hcheck⟩ := Pattern.exists_of_check hparse
  cases hreport : Registry.builtin.check p.profile none with
  | error e => simp [hreport, Except.toOption] at hcheck
  | ok report =>
    have hverdict : report.verdict? "re2" = some .supported := by
      simpa [hreport, Except.toOption] using hcheck
    exact ⟨p, report, hp, hreport, hverdict,
      p.linearTime_of_supported (d := Dialect.re2) (by simp) hreport hverdict⟩

end RegexInsight
