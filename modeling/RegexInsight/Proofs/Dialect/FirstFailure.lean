import Mathlib
import RegexInsight.Proofs.Dialect.Lookup

/-! # First failures

    A check fails in a fixed order: the first name that stands for nothing
    is the one that is reported, and of all the features that a dialect
    lacks the first in check order is the reason.  As the order is that of
    the flags and not that of the record, a profile that asks for more is
    rejected by no fewer dialects, and for no later reason.  The sections
    lead from the order of flags over one dialect and the list of targets
    to whole reports. -/

namespace RegexInsight

/-! ## Section 1: Check order -/

section Positions

variable {α : Type} [DecidableEq α]

/-- What is found first stands before everything else that could be. -/
theorem idxOf_le_of_find? {xs : List α} {test : α → Bool} {found other : α}
    (h : xs.find? test = some found) (hother : test other = true) :
    xs.idxOf found ≤ xs.idxOf other := by
  obtain ⟨hfound, before, after, rfl, hbefore⟩ := List.find?_eq_some_iff_append.mp h
  have hskipped : ∀ x, test x = true → x ∉ before := by
    intro x hx hin
    simpa [hx] using hbefore x hin
  rw [List.idxOf_append_of_notMem (hskipped found hfound),
    List.idxOf_append_of_notMem (hskipped other hother), List.idxOf_cons_self]
  exact Nat.le_add_right _ _

end Positions

namespace FeatureFlag

/-- The place of a flag in check order. -/
def place (flag : FeatureFlag) : Nat :=
  all.idxOf flag

theorem place_inj {flag other : FeatureFlag} : flag.place = other.place ↔ flag = other :=
  List.idxOf_inj flag.mem_all

end FeatureFlag

/-! ## Section 2: The verdict of a dialect -/

/-- The profile asks for a feature that the dialect lacks: for named groups
    a spelling in use that it does not accept, for anything else a feature
    in the list of those it does not support. -/
def Dialect.Lacks (d : Dialect) (p : FeatureProfile) (flag : FeatureFlag) : Prop :=
  p.sets flag = true ∧
    if flag = .namedGroupSpelling then ∃ spelling ∈ p.spellings, spelling ∉ d.spellings
    else flag ∈ d.unsupported

/-- A verdict that is right: the dialect is supported exactly when it lacks
    nothing, and otherwise the reason is what it lacks first. -/
structure Verdict.Tells (v : Verdict) (d : Dialect) (p : FeatureProfile) : Prop where
  supported : v.isSupported = true ↔ ∀ flag, ¬ d.Lacks p flag
  reason : ∀ flag, v.reason? = some flag ↔
    d.Lacks p flag ∧ ∀ other, d.Lacks p other → flag.place ≤ other.place

/-- The profile has every active flag and every spelling of another one. -/
structure FeatureProfile.Includes (q p : FeatureProfile) : Prop where
  sets : ∀ flag, p.sets flag = true → q.sets flag = true
  spellings : p.spellings ⊆ q.spellings

section Verdicts

variable {d : Dialect} {p q : FeatureProfile} {v w : Verdict} {flag : FeatureFlag}

theorem Dialect.lacks_iff : d.Lacks p flag ↔ p.sets flag = true ∧ d.rejects p flag = true := by
  refine and_congr_right fun _ => ?_
  cases flag with
  | namedGroupSpelling => simp [rejects]
  | _ => simp [rejects]

/-- A richer profile asks for all that a poorer one asks for. -/
theorem Dialect.Lacks.mono (h : d.Lacks p flag) (hincludes : q.Includes p) : d.Lacks q flag := by
  obtain ⟨hset, hlacks⟩ := h
  refine ⟨hincludes.sets flag hset, ?_⟩
  split at hlacks
  next hflag =>
    obtain ⟨spelling, hmem, hnot⟩ := hlacks
    exact if_pos hflag ▸ ⟨spelling, hincludes.spellings hmem, hnot⟩
  next hflag => exact if_neg hflag ▸ hlacks

theorem Verdict.isSupported_iff : v.isSupported = true ↔ v.reason? = none := by
  cases v <;> simp [isSupported, reason?]

/-- Judging takes the first flag in check order that the dialect lacks. -/
theorem Dialect.reason?_judge : (d.judge p).reason? =
    FeatureFlag.all.find? fun flag => decide (p.sets flag = true ∧ d.rejects p flag = true) := by
  rw [← List.find?_filter]
  show _ = p.activeFlags.find? (d.rejects p)
  unfold judge
  split
  next flag hfind => exact hfind.symm
  next hfind => exact hfind.symm

theorem Dialect.judge_tells (d : Dialect) (p : FeatureProfile) : (d.judge p).Tells d p := by
  have hsupported : (d.judge p).isSupported = true ↔ ∀ flag, ¬ d.Lacks p flag := by
    rw [Verdict.isSupported_iff, reason?_judge, List.find?_eq_none]
    simp [FeatureFlag.mem_all, lacks_iff]
  have hfirst : ∀ flag, (d.judge p).reason? = some flag →
      d.Lacks p flag ∧ ∀ other, d.Lacks p other → flag.place ≤ other.place := by
    intro flag hreason
    rw [reason?_judge] at hreason
    have hfound := List.find?_some hreason
    refine ⟨lacks_iff.mpr (of_decide_eq_true hfound), fun other hother => ?_⟩
    exact idxOf_le_of_find? hreason (decide_eq_true (lacks_iff.mp hother))
  refine ⟨hsupported, fun flag => ⟨hfirst flag, ?_⟩⟩
  rintro ⟨hlacks, hleast⟩
  cases hreason : (d.judge p).reason? with
  | none => exact absurd hlacks (hsupported.mp (Verdict.isSupported_iff.mpr hreason) flag)
  | some first =>
    obtain ⟨hlacked, hbefore⟩ := hfirst first hreason
    have hplace := le_antisymm (hbefore flag hlacks) (hleast first hlacked)
    rw [FeatureFlag.place_inj.mp hplace]

/-- What rejects a profile rejects a richer one, for no later reason. -/
theorem Verdict.Tells.reason_mono (hv : v.Tells d p) (hw : w.Tells d q) (hincludes : q.Includes p)
    (hreason : v.reason? = some flag) :
    ∃ first, w.reason? = some first ∧ first.place ≤ flag.place := by
  have hlacks := ((hv.reason flag).mp hreason).1.mono hincludes
  cases hfirst : w.reason? with
  | none => exact absurd hlacks (hw.supported.mp (Verdict.isSupported_iff.mpr hfirst) flag)
  | some first => exact ⟨first, rfl, ((hw.reason first).mp hfirst).2 flag hlacks⟩

end Verdicts

/-! ## Section 3: The targets -/

section Targets

variable {names : List String} {name : String}

theorem firstOccurrences_concat : firstOccurrences (names ++ [name]) =
    if name ∈ firstOccurrences names then firstOccurrences names
    else firstOccurrences names ++ [name] := by
  simp [firstOccurrences]

theorem mem_firstOccurrences : name ∈ firstOccurrences names ↔ name ∈ names := by
  induction names using List.reverseRecOn with
  | nil => rfl
  | append_singleton names last ih =>
    rw [firstOccurrences_concat, List.mem_append, List.mem_singleton, ← ih]
    split
    next hlast =>
      refine ⟨.inl, ?_⟩
      rintro (hname | rfl)
      · exact hname
      · exact hlast
    next => rw [List.mem_append, List.mem_singleton]

/-- The entries that are kept stand in the order in which they come first. -/
theorem pairwise_firstOccurrences :
    (firstOccurrences names).Pairwise fun a b => names.idxOf a < names.idxOf b := by
  induction names using List.reverseRecOn with
  | nil => exact List.Pairwise.nil
  | append_singleton names last ih =>
    have hplace : ∀ a ∈ firstOccurrences names, (names ++ [last]).idxOf a = names.idxOf a :=
      fun a ha => List.idxOf_append_of_mem (mem_firstOccurrences.mp ha)
    have hkept : (firstOccurrences names).Pairwise
        fun a b => (names ++ [last]).idxOf a < (names ++ [last]).idxOf b := by
      refine ih.imp_of_mem fun ha hb hlt => ?_
      rwa [hplace _ ha, hplace _ hb]
    rw [firstOccurrences_concat]
    split
    next => exact hkept
    next hnew =>
      refine List.pairwise_append.mpr ⟨hkept, List.pairwise_singleton _ _, fun a ha b hb => ?_⟩
      obtain rfl := List.mem_singleton.mp hb
      -- the new entry comes after all of the list, and the others are in it
      rw [hplace a ha, List.idxOf_append_of_notMem (mem_firstOccurrences.not.mp hnew)]
      have hlt := List.idxOf_lt_length_of_mem (mem_firstOccurrences.mp ha)
      exact Nat.lt_add_right _ hlt

end Targets

/-! ## Section 4: Reports -/

/-- A report on the targets that were asked for: each has an entry once, in
    the order in which they were first asked for, with the right verdict of
    the dialect that has this id. -/
structure PortabilityReport.Answers (report : PortabilityReport) (r : Registry)
    (p : FeatureProfile) (asked : List String) : Prop where
  mem_ids : ∀ id, id ∈ report.verdicts.map Prod.fst ↔ id ∈ asked
  order : (report.verdicts.map Prod.fst).Pairwise fun a b => asked.idxOf a < asked.idxOf b
  verdict : ∀ entry ∈ report.verdicts, ∃ d ∈ r.dialects, d.id = entry.1 ∧ entry.2.Tells d p

/-- Whatever one report rejects another one rejects, for no later reason. -/
def PortabilityReport.RejectsAllOf (report other : PortabilityReport) : Prop :=
  ∀ id v flag, (id, v) ∈ other.verdicts → v.reason? = some flag →
    ∃ w first, (id, w) ∈ report.verdicts ∧ w.reason? = some first ∧ first.place ≤ flag.place

namespace PortabilityReport.Answers

variable {r : Registry} {p q : FeatureProfile} {asked : List String}
  {report other : PortabilityReport}

/-- Nothing is lacked for a profile without active flags. -/
theorem isFullyPortable (h : report.Answers r p asked) (hempty : p.isEmpty = true) :
    report.isFullyPortable = true := by
  refine List.all_eq_true.mpr fun entry hentry => ?_
  obtain ⟨d, -, -, htells⟩ := h.verdict entry hentry
  refine htells.supported.mpr fun flag hlacks => ?_
  have hmem : flag ∈ p.activeFlags := List.mem_filter.mpr ⟨flag.mem_all, hlacks.1⟩
  exact List.ne_nil_of_mem hmem (List.isEmpty_iff.mp hempty)

/-- The richer of two profiles is rejected wherever the other one is. -/
theorem rejectsAllOf (hkept : r.IsKept) (hother : other.Answers r q asked)
    (h : report.Answers r p asked) (hincludes : q.Includes p) : other.RejectsAllOf report := by
  intro id v flag hentry hreason
  obtain ⟨d, hd, hid, htells⟩ := h.verdict (id, v) hentry
  have hmem : id ∈ other.verdicts.map Prod.fst :=
    (hother.mem_ids id).mpr ((h.mem_ids id).mp (List.mem_map_of_mem hentry))
  obtain ⟨⟨key, w⟩, hw, hkey⟩ := List.mem_map.mp hmem
  obtain rfl : key = id := hkey
  obtain ⟨d', hd', hid', htells'⟩ := hother.verdict _ hw
  -- an id belongs to one dialect only
  obtain rfl : d = d' := List.inj_on_of_nodup_map hkept.ids hd hd' (hid.trans hid'.symm)
  obtain ⟨first, hfirst, hplace⟩ := htells.reason_mono htells' hincludes hreason
  exact ⟨w, first, hw, hfirst, hplace⟩

end PortabilityReport.Answers

namespace Registry

variable {r : Registry} {p q : FeatureProfile} {names ids : List String}

theorem targets_some (h : List.Forall₂ (fun name id => r.resolve name = .ok id) names ids) :
    r.targets (some names) = .ok (firstOccurrences ids) :=
  bind_eq_ok_iff.mpr ⟨ids, mapM_eq_ok_iff.mpr h, rfl⟩

theorem has_iff {name : String} : r.has name = true ↔ ∃ id, r.resolve name = .ok id := by
  rw [has]
  cases r.resolve name <;> simp

theorem forall_has_iff : (∀ name ∈ names, r.has name = true) ↔
    ∃ ids, List.Forall₂ (fun name id => r.resolve name = .ok id) names ids := by
  simp only [has_iff, exists_forall₂_iff]

/-- The first name that stands for nothing is reported. -/
theorem check_eq_error {name : String} (h : names.find? (fun name => !r.has name) = some name) :
    r.check p (some names) = .error ⟨name, r.ids⟩ := by
  obtain ⟨hname, before, after, rfl, hbefore⟩ := List.find?_eq_some_iff_append.mp h
  simp only [Bool.not_eq_true', Bool.not_not] at hname hbefore
  cases hresolve : r.resolve name with
  | ok id => simp [has, hresolve] at hname
  | error e =>
    obtain rfl := resolve_eq_error hresolve
    rw [check, targets, mapM_eq_error (fun b hb => has_iff.mp (hbefore b hb)) hresolve]
    rfl

section Answers

variable (hkept : r.IsKept) (hids : ∀ id ∈ r.ids, lookupKey id = id)
  (hnames : List.Forall₂ (fun name id => r.resolve name = .ok id) names ids)

include hkept hids hnames

/-- Names that stand for dialects get a report on these. -/
theorem IsKept.exists_answers (p : FeatureProfile) :
    ∃ report, r.check p (some names) = .ok report ∧ report.Answers r p ids := by
  have htargets := targets_some hnames
  have hregistered : ∀ id ∈ firstOccurrences ids, id ∈ r.ids := by
    intro id hid
    obtain ⟨name, -, hname⟩ := mem_of_mapM_eq_ok (mapM_eq_ok_iff.mpr hnames)
      (mem_firstOccurrences.mp hid)
    exact hkept.mem_ids_of_resolve hname
  obtain ⟨report, hreport⟩ := (exists_check_iff htargets).mpr fun id hid =>
    hkept.exists_get_iff.mpr (.inl ((hids id (hregistered id hid)).symm ▸ hregistered id hid))
  have hkeys := map_fst_of_check htargets hreport
  refine ⟨report, hreport, fun id => hkeys ▸ mem_firstOccurrences, ?_, fun entry hentry => ?_⟩
  · exact hkeys ▸ pairwise_firstOccurrences
  · obtain ⟨d, hd, hjudge⟩ := judge_of_mem_verdicts hreport hentry
    obtain ⟨hresolve, hmem⟩ := hkept.get_eq_ok_iff.mp hd
    have hid := hregistered entry.1 (hkeys ▸ List.mem_map_of_mem hentry)
    have hown : r.resolve entry.1 = .ok entry.1 := (resolve_id_iff hid).mpr (.inl (hids _ hid))
    refine ⟨d, hmem, Except.ok.inj (hresolve.symm.trans hown), ?_⟩
    exact hjudge ▸ d.judge_tells p

end Answers

/-- A check of dialects whose ids are in the form of look-ups is exact, and
    more features never make a pattern more portable. The first name that
    stands for nothing is reported; otherwise the report answers what was
    asked for, and a richer profile is rejected wherever this one is, for no
    later reason. A profile without active flags is supported by all. -/
theorem Reachable.check_exact (h : r.Reachable) (hids : ∀ id ∈ r.ids, lookupKey id = id)
    (p : FeatureProfile) (names : List String) :
    (∀ name, names.find? (fun name => !r.has name) = some name →
      r.check p (some names) = .error ⟨name, r.ids⟩) ∧
    ((∀ name ∈ names, r.has name = true) →
      ∃ ids, List.Forall₂ (fun name id => r.resolve name = .ok id) names ids ∧
        ∃ report, r.check p (some names) = .ok report ∧ report.Answers r p ids ∧
          (p.isEmpty = true → report.isFullyPortable = true) ∧
          ∀ q : FeatureProfile, q.Includes p → ∃ other, r.check q (some names) = .ok other ∧
            other.Answers r q ids ∧ other.RejectsAllOf report) := by
  refine ⟨fun name => check_eq_error, fun hknown => ?_⟩
  obtain ⟨ids, hnames⟩ := forall_has_iff.mp hknown
  obtain ⟨report, hreport, hanswers⟩ := h.isKept.exists_answers hids hnames p
  refine ⟨ids, hnames, report, hreport, hanswers, hanswers.isFullyPortable, fun q hincludes => ?_⟩
  obtain ⟨other, hother, hothers⟩ := h.isKept.exists_answers hids hnames q
  exact ⟨other, hother, hothers, hothers.rejectsAllOf h.isKept hanswers hincludes⟩


/-- Of two names that stand for nothing the first is reported. Two names of
    one dialect get one verdict, and an atomic group in the pattern makes no
    rejection go away. -/
theorem Reachable.check_exact_of_named :
    ∃ p, Pattern.parse "(?P<word>a)".toList = .ok p ∧
      Registry.builtin.check p.profile (some ["re", "pascal", "cobol"]) =
        .error ⟨"pascal", Registry.builtin.ids⟩ ∧
      ∃ report other, Registry.builtin.check p.profile (some ["re", "JS", "py"]) = .ok report ∧
        report.Answers .builtin p.profile ["python_re", "javascript", "python_re"] ∧
        Registry.builtin.check { p.profile with hasAtomicGroup := true } (some ["re", "JS", "py"]) =
          .ok other ∧ other.RejectsAllOf report := by
  obtain ⟨hids, hpascal, hresolve⟩ :
      (∀ id ∈ Registry.builtin.ids, lookupKey id = id) ∧
        ["re", "pascal", "cobol"].find? (fun name => !Registry.builtin.has name) = some "pascal" ∧
        ["re", "JS", "py"].mapM Registry.builtin.resolve =
          .ok ["python_re", "javascript", "python_re"] := by decide +kernel
  obtain ⟨p, hp⟩ : ∃ p, Pattern.parse "(?P<word>a)".toList = .ok p := ⟨_, rfl⟩
  obtain ⟨herror, -⟩ := Reachable.builtin.check_exact hids p.profile ["re", "pascal", "cobol"]
  obtain ⟨-, hanswers⟩ := Reachable.builtin.check_exact hids p.profile ["re", "JS", "py"]
  obtain ⟨ids, hnames, report, hreport, hright, -, hricher⟩ :=
    hanswers (forall_has_iff.mpr ⟨_, mapM_eq_ok_iff.mp hresolve⟩)
  obtain rfl := Except.ok.inj ((mapM_eq_ok_iff.mpr hnames).symm.trans hresolve)
  -- an atomic group adds to what the pattern uses
  have hincludes : FeatureProfile.Includes { p.profile with hasAtomicGroup := true } p.profile := by
    refine ⟨fun flag hset => ?_, fun _ => id⟩
    cases flag with
    | atomicGroup => rfl
    | _ => exact hset
  obtain ⟨other, hother, -, hstricter⟩ := hricher _ hincludes
  exact ⟨p, hp, herror "pascal" hpascal, report, other, hreport, hright, hother,
    hstricter⟩

end Registry

end RegexInsight
