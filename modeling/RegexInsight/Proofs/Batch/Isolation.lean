import Mathlib
import RegexInsight.Proofs.Dialect.FirstFailure
import RegexInsight.Proofs.Engine.Routing
import RegexInsight.Proofs.Pattern.NumeralFailure
import RegexInsight.Report.Content

/-! # Isolation of failures in batches

    The row of a pattern depends on nothing but the pattern and the
    dialects of the configuration, so a batch without probes is as good as
    its patterns taken one by one.  A malformed pattern has a row that
    shows its error.  What no row is made for is a failure over a number:
    a pattern whose references cannot be read ends the whole batch. -/

namespace RegexInsight

/-! ## Section 1: Reports for resolved dialects -/

namespace Registry

variable {r : Registry}

/-- Every registered dialect can be had by its own id. -/
def IsComplete (r : Registry) : Prop :=
  r.IsKept ∧ ∀ id ∈ r.ids, ∃ d, r.get id = .ok d

/-- All registered dialects can be judged, and each list of them. -/
theorem IsComplete.exists_check (h : r.IsComplete) (p : FeatureProfile)
    {requested : Option (List String)}
    (hknown : ∀ ids, requested = some ids → ∀ id ∈ ids, id ∈ r.ids) :
    ∃ report, r.check p requested = .ok report := by
  obtain ⟨hkept, hget⟩ := h
  have htargets : ∃ ids, r.targets requested = .ok ids ∧ ∀ id ∈ ids, id ∈ r.ids := by
    cases requested with
    | none => exact ⟨r.ids, rfl, fun _ => id⟩
    | some ids =>
      have hresolved : ∀ id ∈ ids, ∃ target, r.resolve id = .ok target := by
        intro id hid
        obtain ⟨d, hd⟩ := hget id (hknown ids rfl id hid)
        exact ⟨d.id, (hkept.get_eq_ok_iff.mp hd).1⟩
      obtain ⟨targets, htargets⟩ := exists_mapM_iff.mpr hresolved
      refine ⟨firstOccurrences targets, bind_eq_ok_iff.mpr ⟨targets, htargets, rfl⟩, fun id hid => ?_⟩
      obtain ⟨name, -, hname⟩ := mem_of_mapM_eq_ok htargets (mem_firstOccurrences.mp hid)
      exact hkept.mem_ids_of_resolve hname
  obtain ⟨ids, htargets, hids⟩ := htargets
  exact (exists_check_iff htargets).mpr fun id hid => hget id (hids id hid)

end Registry

/-! ## Section 2: Analyses without a probe -/

namespace AnalysisRequest

variable {request : AnalysisRequest} {registry : Registry} {prober : Prober} {text : Text}

/-- All names that a request or its configuration gives stand for
    dialects. -/
def IsResolved (request : AnalysisRequest) (registry : Registry) : Prop :=
  ∀ names, request.dialects.or request.config.dialects = some names →
    ∀ name ∈ names, ∃ id, registry.resolve name = .ok id

theorem IsResolved.exists_targets (h : request.IsResolved registry) (hkept : registry.IsKept) :
    ∃ targets, request.targets registry = .ok targets ∧
      ∀ ids, targets = some ids → ∀ id ∈ ids, id ∈ registry.ids := by
  unfold AnalysisRequest.targets
  cases hdialects : request.dialects.or request.config.dialects with
  | none => exact ⟨none, rfl, nofun⟩
  | some names =>
    obtain ⟨ids, hids⟩ := exists_mapM_iff.mpr (h names hdialects)
    refine ⟨some ids, by simp [hids, Except.mapError, Except.map], ?_⟩
    intro targets htargets id hid
    obtain rfl := Option.some.inj htargets
    obtain ⟨name, -, hname⟩ := mem_of_mapM_eq_ok hids hid
    exact hkept.mem_ids_of_resolve hname

/-- When nothing is probed, an analysis fails for the pattern text alone. -/
theorem IsResolved.run_spec (h : request.IsResolved registry) (hregistry : registry.IsComplete)
    (hprobe : request.probe = false) (prober : Prober) (text : Text) :
    (∀ p, Pattern.parse text = .ok p → ∃ a, request.run registry prober text = .ok a) ∧
      ∀ failure, Pattern.parse text = .error failure →
        request.run registry prober text = .error (.parse failure) := by
  obtain ⟨targets, htargets, hids⟩ := h.exists_targets hregistry.1
  unfold run
  rw [htargets]
  constructor
  · intro p hp
    obtain ⟨report, hreport⟩ := hregistry.exists_check p.profile hids
    have hverdict : request.verdict prober p = .ok none := by
      simp [verdict, hprobe, pure, Except.pure]
    rw [hp]
    simp [Except.mapError, p.select_eq_ok, hverdict, hreport, bind, Except.bind, pure, Except.pure]
  · intro failure hfailure
    rw [hfailure]
    rfl

/-- When nothing is probed, only the dialects of a configuration count. -/
theorem run_eq_of_dialects_eq {other : AnalysisRequest} {otherProber : Prober}
    (hprobe : request.probe = false) (hother : other.probe = false)
    (hdialects : request.dialects.or request.config.dialects =
      other.dialects.or other.config.dialects) :
    request.run registry prober text = other.run registry otherProber text := by
  have htargets : request.targets registry = other.targets registry := by
    rw [targets, targets, hdialects]
  have hverdict : request.verdict prober = other.verdict otherProber := by
    funext p
    simp [verdict, hprobe, hother]
  rw [run, run, htargets, hverdict]

end AnalysisRequest

/-! ## Section 3: Rows -/

namespace BatchRow

open ReportValue in
/-- What the row of a malformed pattern shows. -/
def columnsOfError (pattern : Text) (e : ParseError) : List (String × ReportValue) :=
  [("pattern", chars pattern), ("valid", .bool false), ("error", .text e.message),
    ("error_position", nat e.position), ("engine", null), ("risk", null), ("static_score", null),
    ("nested_quantifier_depth", null), ("supported_dialects", list []),
    ("unsupported_dialects", list []), ("suggestion", .text e.suggestion)]

theorem columns_of_error {row : BatchRow} {e : ParseError} (h : row.error? = some e) :
    row.columns = columnsOfError row.pattern e := by
  obtain ⟨pattern, outcome⟩ := row
  cases outcome with
  | ok analysis => simp [error?] at h
  | error e' =>
    obtain rfl : e' = e := Option.some.inj h
    rfl

/-- The row of a pattern text: it shows the error of a malformed pattern, and
    calls any other pattern valid. -/
structure IsFor (row : BatchRow) (text : Text) : Prop where
  pattern : row.pattern = text
  error : ∀ e, row.error? = some e ↔ Pattern.parse text = .error (.malformed e)
  shown : ∀ e, Pattern.parse text = .error (.malformed e) → row.columns = columnsOfError text e
  valid : ("valid", ReportValue.bool true) ∈ row.columns ↔ ∃ p, Pattern.parse text = .ok p

theorem isFor_of_malformed {text : Text} {e : ParseError}
    (h : Pattern.parse text = .error (.malformed e)) : IsFor ⟨text, .error e⟩ text where
  pattern := rfl
  error e' := by simp [error?, h]
  shown e' h' := by
    rw [h] at h'
    obtain rfl := ParseFailure.malformed.inj (Except.error.inj h')
    rfl
  valid := by
    rw [h, columns_of_error (e := e) rfl]
    simp [columnsOfError]

theorem isFor_of_ok {text : Text} {p : Pattern} (h : Pattern.parse text = .ok p) (a : Analysis) :
    IsFor ⟨text, .ok a⟩ text where
  pattern := rfl
  error e' := by simp [error?, h]
  shown e' h' := by simp [h] at h'
  valid := iff_of_true (by simp [columns, error?]) ⟨p, h⟩

end BatchRow

/-! ## Section 4: Batches -/

/-- The references of a text can be read: no relative one is too long, and
    if the text ends well up to its references, the first that is not good
    is none that fails as a number. -/
def Pattern.HasReadableReferences (text : Text) : Prop :=
  ∀ s, (ParserState.initial text).RunsTo s → ¬ s.MeetsOverlongOffset ∧
    (s.cur.rest = [] → s.outer = [] → ¬ s.HasUnreadableReference)

theorem Pattern.hasReadableReferences_iff {text : Text} (h : HasShortBounds text) :
    HasReadableReferences text ↔ ∀ e, parse text ≠ .error (.numeral e) := by
  have hclean : HasReadableReferences text ↔ (read text).Clean := by
    rw [clean_read]
    refine forall_congr' fun s => forall_congr' fun hs => ?_
    rw [and_iff_right (h s hs)]
  rw [hclean, parse]
  cases read text with
  | ok p => simp [Except.mapError, Read.Clean]
  | error e => cases e <;> simp [Except.mapError, failure, Read.Clean]

namespace BatchRequest

variable {request : BatchRequest} {registry : Registry} {prober : Prober} {text : Text}
  {texts : List Text}

/-- All names in the configuration stand for dialects. -/
def IsResolved (request : BatchRequest) (registry : Registry) : Prop :=
  ∀ names, request.config.dialects = some names →
    ∀ name ∈ names, ∃ id, registry.resolve name = .ok id

/-- When nothing is probed, neither the number of workers nor the place of
    the probes matters. -/
theorem row_eq_of_workers (hprobe : request.probe = false) (workers : Int)
    (prober otherProber : Prober) :
    { request with workers := workers }.row registry otherProber text =
      request.row registry prober text := by
  let request' : BatchRequest := { request with workers := workers }
  have hsame : AnalysisRequest.run ⟨none, request'.probe, [], none, request'.workerConfig⟩ registry
      otherProber text =
        AnalysisRequest.run ⟨none, request.probe, [], none, request.workerConfig⟩ registry
          prober text :=
    AnalysisRequest.run_eq_of_dialects_eq hprobe hprobe rfl
  unfold row
  dsimp only
  rw [← hsame]

section Unprobed

variable (hprobe : request.probe = false) (hregistry : registry.IsComplete)
  (hresolved : request.IsResolved registry)

include hprobe hregistry hresolved

/-- There is a row unless a number cannot be read. -/
theorem row_spec (prober : Prober) (text : Text) :
    ((∃ row, request.row registry prober text = .ok row) ↔
        ∀ e, Pattern.parse text ≠ .error (.numeral e)) ∧
      (∀ row, request.row registry prober text = .ok row → row.IsFor text) ∧
      ∀ e, Pattern.parse text = .error (.numeral e) →
        request.row registry prober text = .error (.parse (.numeral e)) := by
  have hanalysis : AnalysisRequest.IsResolved
      ⟨none, request.probe, [], none, request.workerConfig⟩ registry := hresolved
  obtain ⟨hok, herror⟩ := hanalysis.run_spec hregistry hprobe prober text
  unfold row
  dsimp only
  -- a parse error makes a row of its own, unless it is that of a number
  cases hparse : Pattern.parse text with
  | ok p =>
    obtain ⟨a, ha⟩ := hok p hparse
    rw [ha]
    refine ⟨by simp, ?_, nofun⟩
    rintro row hrow
    obtain rfl := Except.ok.inj hrow
    exact BatchRow.isFor_of_ok hparse a
  | error failure =>
    rw [herror failure hparse]
    cases failure with
    | malformed e =>
      refine ⟨by simp, ?_, by simp⟩
      rintro row hrow
      obtain rfl := Except.ok.inj hrow
      exact BatchRow.isFor_of_malformed hparse
    | numeral e => simp

/-- Rows that stand for the texts of a batch: one for each in their order,
    the one that the text has alone, whatever the number of workers. -/
structure Isolates (request : BatchRequest) (registry : Registry) (prober : Prober)
    (texts : List Text) (rows : List BatchRow) : Prop where
  rowFor : List.Forall₂ (fun text row => row.IsFor text) texts rows
  alone : List.Forall₂ (fun text row => request.run registry prober [text] = .ok [row]) texts rows
  anyWorkers : ∀ workers otherProber,
    { request with workers := workers }.run registry otherProber texts = .ok rows

theorem isolates_of_run {rows : List BatchRow} (h : request.run registry prober texts = .ok rows) :
    request.Isolates registry prober texts rows := by
  have hrows := mapM_eq_ok_iff.mp h
  refine ⟨hrows.imp fun text row hrow => ?_, hrows.imp fun text row hrow => ?_, ?_⟩
  · exact (row_spec hprobe hregistry hresolved prober text).2.1 row hrow
  · exact mapM_eq_ok_iff.mpr (.cons hrow .nil)
  · intro workers otherProber
    rw [← h]
    exact congrArg (texts.mapM ·) (funext fun text => row_eq_of_workers hprobe _ _ _)

/-- Let nothing be probed, let the names in the configuration stand for
    dialects, and let the bounds of all quantifiers be short.  Then a batch
    has rows exactly when the references of all its texts can be read, and
    these are rows for its texts, each of which is the row of its text
    alone.  Otherwise the batch ends with the failure of the first text
    whose references cannot be read. -/
theorem run_isolates (prober : Prober) (hbounds : ∀ text ∈ texts, Pattern.HasShortBounds text) :
    ((∃ rows, request.run registry prober texts = .ok rows) ↔
        ∀ text ∈ texts, Pattern.HasReadableReferences text) ∧
      (∀ rows, request.run registry prober texts = .ok rows →
        request.Isolates registry prober texts rows) ∧
      ∀ before text after e, texts = before ++ text :: after →
        (∀ other ∈ before, Pattern.HasReadableReferences other) →
        Pattern.parse text = .error (.numeral e) →
        request.run registry prober texts = .error (.parse (.numeral e)) := by
  have hrow : ∀ text ∈ texts, (∃ row, request.row registry prober text = .ok row) ↔
      Pattern.HasReadableReferences text := by
    intro text htext
    rw [Pattern.hasReadableReferences_iff (hbounds text htext)]
    exact (row_spec hprobe hregistry hresolved prober text).1
  refine ⟨?_, fun rows => isolates_of_run hprobe hregistry hresolved, ?_⟩
  · rw [run, exists_mapM_iff]
    exact forall₂_congr hrow
  · rintro before text after e rfl hbefore hfails
    have hfailed := (row_spec hprobe hregistry hresolved prober text).2.2 e hfails
    refine mapM_eq_error (fun other hother => ?_) hfailed
    exact (hrow other (List.mem_append_left _ hother)).mpr (hbefore other hother)

end Unprobed

/-- The built-in dialects can all be had by their ids. -/
theorem isComplete_builtin : Registry.builtin.IsComplete := by
  have hkept := Registry.Reachable.builtin.isKept
  have hkeys : ∀ id ∈ Registry.builtin.ids, lookupKey id ∈ Registry.builtin.ids := by
    decide +kernel
  exact ⟨hkept, fun id hid => hkept.exists_get_iff.mpr (.inl (hkeys id hid))⟩

/-- No bench at all. -/
def noProber : Prober := fun _ => .error ""

/-- Of two patterns the malformed one has a row with its error, and the
    other one the row that it has alone. -/
theorem run_isolates_of_unclosed :
    ∃ first second e,
      run ⟨false, 4, .standard⟩ .builtin noProber ["a".toList, "a(".toList] = .ok [first, second] ∧
        run ⟨false, 4, .standard⟩ .builtin noProber ["a".toList] = .ok [first] ∧
        Pattern.parse "a(".toList = .error (.malformed e) ∧ second.error? = some e := by
  have hresolved : IsResolved ⟨false, 4, .standard⟩ .builtin := nofun
  have hbounds : ∀ text ∈ ["a".toList, "a(".toList], Pattern.HasShortBounds text := by
    intro text htext
    refine Pattern.hasShortBounds_of_not_mem ?_
    revert text
    decide
  have hreadable : ∀ text ∈ ["a".toList, "a(".toList], Pattern.HasReadableReferences text := by
    intro text htext
    rw [Pattern.hasReadableReferences_iff (hbounds text htext)]
    simp only [List.mem_cons, List.not_mem_nil, or_false] at htext
    rcases htext with rfl | rfl <;> exact fun e he => nomatch he
  obtain ⟨hrows, hisolates, -⟩ := run_isolates rfl isComplete_builtin hresolved noProber hbounds
  -- both rows are made, and each is the one that its text has alone
  obtain ⟨rows, hrun⟩ := hrows.mpr hreadable
  obtain ⟨hfor, halone, -⟩ := hisolates rows hrun
  obtain ⟨first, rest, hfirst, hrest, rfl⟩ := List.forall₂_cons_left_iff.mp halone
  obtain ⟨second, nothing, hsecond, hnothing, rfl⟩ := List.forall₂_cons_left_iff.mp hrest
  obtain rfl := List.forall₂_nil_left_iff.mp hnothing
  obtain ⟨e, he⟩ : ∃ e, Pattern.parse "a(".toList = .error (.malformed e) := ⟨_, rfl⟩
  refine ⟨first, second, e, hrun, hfirst, he, ?_⟩
  have hrow : second.IsFor "a(".toList := by
    cases hfor with
    | cons _ hrest => cases hrest with
      | cons hsecond _ => exact hsecond
  exact (hrow.error e).mpr he

/-- A condition that is a digit and no number ends the batch, although the
    first pattern alone has a row. -/
theorem run_fails_of_superscript :
    (∀ text ∈ ["abc".toList, "(a)(?(²)b)".toList], Pattern.HasShortBounds text) ∧
      IsResolved ⟨false, 4, .standard⟩ .builtin ∧
      (∃ row, run ⟨false, 4, .standard⟩ .builtin noProber ["abc".toList] = .ok [row]) ∧
      run ⟨false, 4, .standard⟩ .builtin noProber ["abc".toList, "(a)(?(²)b)".toList] =
        .error (.parse (.numeral (.notDecimal ['²']))) := by
  have hresolved : IsResolved ⟨false, 4, .standard⟩ .builtin := nofun
  have hspec := row_spec rfl isComplete_builtin hresolved noProber
  have hfirst := (hspec "abc".toList).1.mpr fun e he => nomatch he
  have hbounds : ∀ text ∈ ["abc".toList, "(a)(?(²)b)".toList], Pattern.HasShortBounds text := by
    intro text htext
    refine Pattern.hasShortBounds_of_not_mem ?_
    revert text
    decide
  refine ⟨hbounds, hresolved, ?_, ?_⟩
  · obtain ⟨row, hrow⟩ := hfirst
    exact ⟨row, mapM_eq_ok_iff.mpr (.cons hrow .nil)⟩
  · have hfails := (hspec "(a)(?(²)b)".toList).2.2 (.notDecimal ['²']) rfl
    show (["abc".toList] ++ "(a)(?(²)b)".toList :: []).mapM _ = _
    refine mapM_eq_error (fun other hother => ?_) hfails
    obtain rfl := List.mem_singleton.mp hother
    exact hfirst

end BatchRequest

end RegexInsight
