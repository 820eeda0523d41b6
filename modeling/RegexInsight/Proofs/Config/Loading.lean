import RegexInsight.Config.Environment
import RegexInsight.Proofs.Config.Verdict
import RegexInsight.Proofs.Pattern.Progress

/-! # What Loading a Configuration Comes To

    Loading should end in a configuration within its bounds or in a
    configuration error.  What it really ends in is told by the verdicts on
    everything it looks at, in the order in which it looks: of a document
    its parts, the budget, the names and the values of the options and the
    dialects, of an environment the budget and the values.

    A number that is no number slips through as a size or as the threshold,
    in both ways of loading.  Another error ends the loading where a budget
    is no duration, and in a document also where a value, a name or a part
    is of a kind that cannot be used. -/

namespace RegexInsight

/-! ## Section 1: Parts -/

/-- An item of a list that gives a name and a value. -/
def Setting.isPair : Setting → Bool
  | .list [name, _] => match name with
    | .list _ | .mapping _ => false
    | _ => true
  | .text t => t.length == 2
  | .mapping fields => fields.length == 2
  | _ => false

/-- A value that can be a part: nothing, a mapping or a list of pairs. -/
def Setting.isPart (value : Setting) : Bool :=
  value.isBlank || match value with
    | .mapping _ => true
    | .list items => items.all isPair
    | _ => false

/-- A value that can name dialects: nothing, a list, a text or a mapping. -/
def Setting.isListed (value : Setting) : Bool :=
  value.isBlank || match value with
    | .list _ | .text _ | .mapping _ => true
    | _ => false

namespace LoadVerdict

/-- A part that is given has to be one. -/
def ofPart (document : PartFields) (part : String) : LoadVerdict :=
  failsUnless ((document.lookup part).all Setting.isPart)

/-- A budget that is given in seconds has to be a duration. -/
def ofGivenBudget (p : DocumentPart) : LoadVerdict :=
  match p.fields.lookup "budget_seconds" with
  | none => fits
  | some value =>
    match PartFields.seconds value with
    | .ok seconds => failsUnless (Duration.ofSeconds seconds).isOk
    | .error _ => fails

/-- The names in a part have to be texts and options of it; others are
    refused if they are texts. -/
def ofNames (p : DocumentPart) (known : List String) : LoadVerdict :=
  match p.misnamed with
  | some _ => fails
  | none => if p.fields.all fun field => known.contains field.1 then fits else refused

/-- A budget cannot be given otherwise than in seconds. -/
def ofOwnBudget (p : DocumentPart) : LoadVerdict :=
  failsUnless ((p.fields.lookup "budget_seconds").isSome || (p.fields.lookup "budget").isNone)

/-- Dialects that are given have to be listed. -/
def ofDialects (document : PartFields) : LoadVerdict :=
  failsUnless ((document.lookup "dialects").all Setting.isListed)

theorem failsUnless_andThen (a b : Bool) :
    (failsUnless a).andThen (failsUnless b) = failsUnless (a && b) := by
  cases a <;> rfl

end LoadVerdict

namespace FromDocument

variable {α β : Type} {r : FromDocument α} {v : LoadVerdict}

theorem agrees_map {f : α → β} : Agrees (r.map f) v ↔ r.Agrees v := by
  cases r <;> cases v <;> simp [Agrees, Except.map]

theorem agrees_ofPair (index : Nat) (items : List Setting) :
    (DocumentPart.ofPair index items).Agrees (.failsUnless (Setting.list items).isPair) := by
  rcases items with _ | ⟨name, _ | ⟨value, _ | ⟨_, _⟩⟩⟩
  · exact ⟨_, rfl, nofun⟩
  · exact ⟨_, rfl, nofun⟩
  · cases name
    case list => exact ⟨_, rfl, nofun⟩
    case mapping => exact ⟨_, rfl, nofun⟩
    all_goals exact ⟨_, rfl⟩
  · exact ⟨_, rfl, nofun⟩

/-- Texts make a pair if they are two. -/
theorem isPair_map_text {γ : Type} (f : γ → String) (xs : List γ) :
    (Setting.list (xs.map fun x => .text (f x))).isPair = (xs.length == 2) := by
  rcases xs with _ | ⟨_, _ | ⟨_, _ | ⟨_, _⟩⟩⟩ <;> rfl

theorem agrees_ofItem (index : Nat) (item : Setting) :
    (DocumentPart.ofItem index item).Agrees (.failsUnless item.isPair) := by
  cases item with
  | list items => exact agrees_ofPair index items
  | text t =>
    have hpair := agrees_ofPair index (t.toList.map fun c => .text (String.singleton c))
    rw [isPair_map_text String.singleton] at hpair
    exact hpair
  | mapping fields =>
    have hpair := agrees_ofPair index (fields.map fun field => .text field.1)
    rw [isPair_map_text Prod.fst] at hpair
    exact hpair
  | _ => exact ⟨_, rfl, nofun⟩

theorem agrees_ofItems (index : Nat) (items : List Setting) :
    (DocumentPart.ofItems index items).Agrees (.failsUnless (items.all Setting.isPair)) := by
  induction items generalizing index with
  | nil => exact ⟨[], rfl⟩
  | cons item rest ih =>
    rw [List.all_cons, ← LoadVerdict.failsUnless_andThen]
    refine (agrees_ofItem index item).bind fun field _ => ?_
    exact agrees_map.mpr (ih (index + 1))

theorem agrees_part (document : PartFields) (part : String) :
    (DocumentPart.ofDocument document part).Agrees (.ofPart document part) := by
  unfold DocumentPart.ofDocument LoadVerdict.ofPart
  cases document.lookup part with
  | none => exact ⟨_, rfl⟩
  | some value =>
    dsimp only [Option.all_some]
    unfold Setting.isPart
    cases value.isBlank with
    | true => exact ⟨_, rfl⟩
    | false =>
      cases value with
      | mapping fields => exact ⟨_, rfl⟩
      | list items => exact agrees_map.mpr (agrees_ofItems 0 items)
      | _ => exact ⟨_, rfl, nofun⟩

theorem agrees_budget? (p : DocumentPart) : p.budget?.Agrees (.ofGivenBudget p) := by
  -- a value that is no number of seconds is no fault of a setting
  have hseconds : ∀ value e, PartFields.seconds value = .error e → ∀ fault, e ≠ .config fault := by
    intro value e h fault
    rintro rfl
    unfold PartFields.seconds at h
    split at h
    next => split at h <;> cases h
    next =>
      dsimp only at h
      split at h <;> cases h
    next => split at h <;> cases h
  unfold DocumentPart.budget? LoadVerdict.ofGivenBudget
  cases p.fields.lookup "budget_seconds" with
  | none => exact ⟨none, rfl⟩
  | some value =>
    dsimp only
    cases hvalue : PartFields.seconds value with
    | error e => exact ⟨e, rfl, hseconds value e hvalue⟩
    | ok seconds =>
      dsimp only [bind, Except.bind]
      refine agrees_failsUnless (fun hok => ?_) fun herror => ?_
      · cases hduration : Duration.ofSeconds seconds with
        | ok duration => exact ⟨some duration, rfl⟩
        | error e =>
          rw [hduration] at hok
          cases hok
      · cases hduration : Duration.ofSeconds seconds with
        | ok duration =>
          rw [hduration] at herror
          cases herror
        | error e => exact ⟨.duration e, rfl, nofun⟩

theorem agrees_rejectUnknown (p : DocumentPart) (part : String) (known : List String) :
    (p.rejectUnknown part known).Agrees (.ofNames p known) := by
  unfold DocumentPart.rejectUnknown LoadVerdict.ofNames
  cases p.misnamed with
  | some kind => exact ⟨_, rfl, nofun⟩
  | none =>
    have hunknown : (p.unknown known).isEmpty =
        p.fields.all fun field => known.contains field.1 := by
      unfold DocumentPart.unknown
      rw [Bool.eq_iff_iff, List.isEmpty_iff, List.eq_nil_iff_forall_not_mem]
      simp
    dsimp only
    rw [hunknown]
    split
    next => exact ⟨(), rfl⟩
    next => exact ⟨_, rfl⟩

theorem agrees_ownBudget {p : DocumentPart} {given : Option Duration} (h : p.budget? = .ok given) :
    (p.budget given).Agrees (.ofOwnBudget p) := by
  have hgiven : given.isSome = (p.fields.lookup "budget_seconds").isSome := by
    unfold DocumentPart.budget? at h
    cases hlookup : p.fields.lookup "budget_seconds" with
    | none =>
      rw [hlookup] at h
      rw [← Except.ok.inj h]
      rfl
    | some value =>
      rw [hlookup] at h
      obtain ⟨seconds, -, h⟩ := bind_eq_ok_iff.mp h
      split at h
      next => rw [← Except.ok.inj h]; rfl
      next => cases h
  unfold DocumentPart.budget LoadVerdict.ofOwnBudget
  rw [← hgiven]
  cases given with
  | some duration => exact ⟨duration, rfl⟩
  | none =>
    cases p.fields.lookup "budget" with
    | none => exact ⟨_, rfl⟩
    | some value => exact ⟨_, rfl, nofun⟩

theorem agrees_dialects (document : PartFields) :
    (ConfigValues.dialectItems document).Agrees (.ofDialects document) := by
  unfold ConfigValues.dialectItems LoadVerdict.ofDialects
  cases document.lookup "dialects" with
  | none => exact ⟨none, rfl⟩
  | some value =>
    dsimp only [Option.all_some]
    unfold Setting.isListed
    cases value.isBlank with
    | true => exact ⟨none, rfl⟩
    | false =>
      cases value
      case list => exact ⟨_, rfl⟩
      case text => exact ⟨_, rfl⟩
      case mapping => exact ⟨_, rfl⟩
      all_goals exact ⟨_, rfl, nofun⟩

end FromDocument

/-! ## Section 2: Documents -/

/-- The values of all options are within their bounds. -/
structure ConfigValues.IsWithin (v : ConfigValues) : Prop where
  probe : v.probe.IsWithin
  inference : v.inference.IsWithin

/-- A part of a document; without any options where there is none. -/
def DocumentPart.ofName (document : PartFields) (part : String) : DocumentPart :=
  (ofDocument document part).toOption.getD ⟨[], none⟩

/-- The budget that a part leads to. -/
def DocumentPart.budgetInForce (p : DocumentPart) : Duration :=
  (p.budget? >>= p.budget).toOption.getD ProbeSettings.standard.budget

/-- What looking at a document comes to, in the order of the looks. -/
def LoadVerdict.ofDocument (document : PartFields) : List LoadVerdict :=
  let probe := DocumentPart.ofName document "probe"
  let inference := DocumentPart.ofName document "inference"
  [ofPart document "probe", ofGivenBudget probe, ofPart document "inference",
    ofNames probe ProbeConfig.options, ofNames inference InferenceConfig.options,
    ofOwnBudget probe] ++
  (ofProbe (.ofPart probe probe.budgetInForce) ++ ofInference (.ofPart inference)) ++
  [ofDialects document]

namespace LoadVerdict

variable {vs : List LoadVerdict}

theorem failsUnless_ne_slips (condition : Bool) : failsUnless condition ≠ slips := by
  cases condition <;> nofun

/-- Where nothing slips through at any look, nothing slips through. -/
theorem settle_ne_slips (h : ∀ v ∈ vs, v ≠ slips) : settle vs ≠ slips := by
  induction vs with
  | nil => nofun
  | cons v rest ih =>
    rw [settle_cons]
    have hfirst := h v List.mem_cons_self
    have hrest := ih fun w hw => h w (List.mem_cons_of_mem v hw)
    cases v with
    | fits => exact hrest
    | slips => exact absurd rfl hfirst
    | refused => nofun
    | fails => nofun

/-- If nothing was refused and nothing failed, and only the look in the middle
    may have let something slip through, all fits where this one fits. -/
theorem andThen_eq_fits_iff_middle {u v w : LoadVerdict}
    (h : (u.andThen v).andThen w = fits ∨ (u.andThen v).andThen w = slips) (hu : u ≠ slips)
    (hw : w ≠ slips) : (u.andThen v).andThen w = fits ↔ v = fits := by
  revert h hu hw
  cases u <;> cases v <;> cases w <;> decide

theorem ofGivenBudget_ne_slips (p : DocumentPart) : ofGivenBudget p ≠ slips := by
  unfold ofGivenBudget
  split
  next => nofun
  next =>
    split
    next => exact failsUnless_ne_slips _
    next => nofun

theorem ofNames_ne_slips (p : DocumentPart) (known : List String) : ofNames p known ≠ slips := by
  unfold ofNames
  split
  next => nofun
  next => split <;> nofun

end LoadVerdict

namespace DocumentPart

variable {document : PartFields} {part : String} {p : DocumentPart}

theorem ofName_eq (h : ofDocument document part = .ok p) : ofName document part = p := by
  rw [ofName, h]
  rfl

theorem budgetInForce_eq {given : Option Duration} {budget : Duration}
    (hgiven : p.budget? = .ok given) (hbudget : p.budget given = .ok budget) :
    p.budgetInForce = budget := by
  rw [budgetInForce, bind_eq_ok_iff.mpr ⟨given, hgiven, hbudget⟩]
  rfl

end DocumentPart

namespace FromDocument

theorem agrees_ofDocument (document : PartFields) :
    (ConfigValues.ofDocument document).Agrees (.settle (LoadVerdict.ofDocument document)) := by
  unfold LoadVerdict.ofDocument
  simp only [List.append_assoc, List.cons_append, List.nil_append, LoadVerdict.settle_cons,
    LoadVerdict.settle_append, LoadVerdict.settle_nil]
  refine (agrees_part document "probe").bind fun probe hprobe => ?_
  rw [DocumentPart.ofName_eq hprobe]
  refine (agrees_budget? probe).bind fun given hgiven => ?_
  refine (agrees_part document "inference").bind fun inference hinference => ?_
  rw [DocumentPart.ofName_eq hinference]
  refine (agrees_rejectUnknown probe _ _).bind fun _ _ => ?_
  refine (agrees_rejectUnknown inference _ _).bind fun _ _ => ?_
  refine (agrees_ownBudget hgiven).bind fun budget hbudget => ?_
  rw [DocumentPart.budgetInForce_eq hgiven hbudget]
  refine (agrees_probe _).bind fun _ _ => ?_
  refine (agrees_inference _).bind fun _ _ => ?_
  exact (agrees_dialects document).bind fun items _ => ⟨_, rfl⟩

end FromDocument

/-- The values of a configuration are those in the parts of its document. -/
theorem ConfigValues.ofDocument_values {document : PartFields} {v : ConfigValues}
    (h : ofDocument document = .ok v) :
    v.probe = .ofPart (.ofName document "probe")
        (DocumentPart.ofName document "probe").budgetInForce ∧
      v.inference = .ofPart (.ofName document "inference") := by
  obtain ⟨probe, hprobe, h⟩ := bind_eq_ok_iff.mp h
  obtain ⟨given, hgiven, h⟩ := bind_eq_ok_iff.mp h
  obtain ⟨inference, hinference, h⟩ := bind_eq_ok_iff.mp h
  obtain ⟨-, -, h⟩ := bind_eq_ok_iff.mp h
  obtain ⟨-, -, h⟩ := bind_eq_ok_iff.mp h
  obtain ⟨budget, hbudget, h⟩ := bind_eq_ok_iff.mp h
  obtain ⟨-, -, h⟩ := bind_eq_ok_iff.mp h
  obtain ⟨-, -, h⟩ := bind_eq_ok_iff.mp h
  obtain ⟨items, -, h⟩ := bind_eq_ok_iff.mp h
  obtain rfl := Except.ok.inj h
  rw [DocumentPart.ofName_eq hprobe, DocumentPart.ofName_eq hinference,
    DocumentPart.budgetInForce_eq hgiven hbudget]
  exact ⟨rfl, rfl⟩

namespace FromDocument

/-- Loading a document ends as its verdicts say. -/
theorem ends_ofDocument (document : PartFields) :
    (ConfigValues.ofDocument document).Ends ConfigValues.IsWithin
      (.settle (LoadVerdict.ofDocument document)) := by
  refine (agrees_ofDocument document).ends fun v hv => ?_
  have hgoes := (agrees_ofDocument document).goes_on hv
  obtain ⟨hprobe, hinference⟩ := ConfigValues.ofDocument_values hv
  have hwithin : v.IsWithin ↔ v.probe.IsWithin ∧ v.inference.IsWithin :=
    ⟨fun h => ⟨h.probe, h.inference⟩, fun h => ⟨h.1, h.2⟩⟩
  -- only a value can slip through, anything else is refused or fails
  rw [LoadVerdict.ofDocument, LoadVerdict.settle_append, LoadVerdict.settle_append] at hgoes ⊢
  rw [LoadVerdict.andThen_eq_fits_iff_middle hgoes (LoadVerdict.settle_ne_slips fun w hw => ?_)
    (LoadVerdict.settle_ne_slips fun w hw => ?_), LoadVerdict.settle_append,
    LoadVerdict.andThen_eq_fits_iff, LoadVerdict.settle_ofProbe_eq_fits_iff,
    LoadVerdict.settle_ofInference_eq_fits_iff, hwithin, hprobe, hinference]
  · simp only [List.mem_cons, List.not_mem_nil, or_false] at hw
    rcases hw with rfl | rfl | rfl | rfl | rfl | rfl
    · exact LoadVerdict.failsUnless_ne_slips _
    · exact LoadVerdict.ofGivenBudget_ne_slips _
    · exact LoadVerdict.failsUnless_ne_slips _
    · exact LoadVerdict.ofNames_ne_slips _ _
    · exact LoadVerdict.ofNames_ne_slips _ _
    · exact LoadVerdict.failsUnless_ne_slips _
  · rw [List.mem_singleton.mp hw]
    exact LoadVerdict.failsUnless_ne_slips _

end FromDocument

/-! ## Section 3: Environments -/

/-- The values of a probe configuration. -/
def ProbeConfig.values (c : ProbeConfig) : ProbeValues where
  budget := c.budget
  baseRepetitions := .int c.baseRepetitions
  maxInputLength := .int c.maxInputLength
  growthThreshold := .real c.growthThreshold
  minMeasurableSeconds := .real c.minMeasurableSeconds
  startMethod := .text c.startMethod.name
  killGraceSeconds := .real c.killGraceSeconds
  forceDynamic := .bool c.forceDynamic

/-- The values of an inference configuration. -/
def InferenceConfig.values (c : InferenceConfig) : InferenceValues where
  rangePenalty := .real c.rangePenalty
  maxCandidates := .int c.maxCandidates
  useTemplates := .bool c.useTemplates
  templateConfidenceCap := .real c.templateConfidenceCap
  anchored := .bool c.anchored

/-- The values of a configuration. -/
def AnalysisConfig.values (c : AnalysisConfig) : ConfigValues where
  probe := c.probe.values
  inference := c.inference.values
  dialects := c.dialects.map fun names => names.map .text

/-- The error of an environment as that of a document. -/
def BudgetError.inDocument : BudgetError → DocumentError
  | duration e => .duration e
  | config e => .config e

/-- What looking at an environment comes to. -/
def LoadVerdict.ofEnvironment (env : Environment) : List LoadVerdict :=
  match env.probeSettings with
  | .ok settings => ofProbe settings.values ++ ofInference env.inferenceSettings.values
  | .error _ => [fails]

namespace FromDocument

variable {α β γ : Type} (name : String)

theorem checked_bind (x : Except ConfigError α) (f : α → Except ConfigError β) :
    checked (x >>= f) = checked x >>= fun a => checked (f a) := by
  cases x <;> rfl

theorem map_bind (x : FromDocument α) (f : α → FromDocument β) (g : β → γ) :
    (x >>= f).map g = x >>= fun a => (f a).map g := by
  cases x <;> rfl

/-- Two readings are the same if one of them only takes the first value in
    another form. -/
theorem bind_eq_bind {x : FromDocument β} {y : FromDocument α} {g : α → β}
    {f : β → FromDocument γ} {h : α → FromDocument γ} (hfirst : x = y.map g)
    (hrest : ∀ a, f (g a) = h a) : x >>= f = y >>= h := by
  subst hfirst
  cases y with
  | error e => rfl
  | ok a => exact hrest a

/-- A count is compared as the whole number that it is. -/
theorem refuseIf_count (fault : ConfigError) (least : Nat) (n : Int) :
    refuseIf (·.isBelow (.whole least)) fault name (.int n) =
      (checked (if n < least then .error fault else .ok n.toNat)).map
        fun count : Nat => .whole count := by
  by_cases hbelow : n < least
  · rw [if_pos hbelow]
    exact if_pos (decide_eq_true hbelow)
  · rw [if_neg hbelow]
    show _ = Except.ok (SettingNumber.whole (n.toNat : Int))
    rw [Int.toNat_of_nonneg (by omega)]
    exact if_neg (by simpa [SettingNumber.isBelow] using hbelow)

/-- A count that passed its check is the number that was given. -/
theorem cast_of_count {fault : ConfigError} (least : Nat) {n : Int} {count : Nat}
    (h : (if n < least then Except.error fault else Except.ok n.toNat) = .ok count) :
    (count : Int) = n := by
  split at h
  next => cases h
  next hleast =>
    rw [← Except.ok.inj h]
    exact Int.toNat_of_nonneg (by omega)

theorem refuseIf_real (bad : SettingNumber → Bool) (fault : ConfigError) (x : Float)
    {check : Except ConfigError Float}
    (hcheck : check = if bad (.real x) then .error fault else .ok x) :
    refuseIf bad fault name (.real x) = (checked check).map .real := by
  subst hcheck
  show (if bad (.real x) then Except.error _ else Except.ok (SettingNumber.real x)) = _
  cases bad (.real x) <;> rfl

end FromDocument

theorem ProbeSettings.checkThreshold_eq (x : Float) : checkThreshold x =
    if (SettingNumber.real x).isAtMost (.real 2.0) then .error .thresholdTooLow else .ok x := by
  unfold checkThreshold
  simp only [SettingNumber.isAtMost_real_iff]

/-- Settings are checked like the values of options. -/
theorem ProbeSettings.values_check (s : ProbeSettings) :
    s.values.check = (FromDocument.checked s.check).map fun _ => () := by
  unfold ProbeValues.check check
  -- both checks go through the same steps, one on settings and one on numbers
  simp only [FromDocument.checked_bind, FromDocument.map_bind]
  refine bind_congr fun _ => ?_
  refine FromDocument.bind_eq_bind (FromDocument.refuseIf_count _ _ 1 _) fun base => ?_
  refine FromDocument.bind_eq_bind (FromDocument.refuseIf_count _ _ base _) fun _ => ?_
  refine FromDocument.bind_eq_bind (FromDocument.refuseIf_real _ _ _ _ (checkThreshold_eq _))
    fun _ => ?_
  rfl

theorem InferenceSettings.checkPenalty_eq (x : Float) : checkPenalty x =
    if !InferenceValues.isPenalty (.real x) then .error .penaltyOutOfRange else .ok x := by
  have hpenalty : InferenceValues.isPenalty (.real x) = (decide (0.0 ≤ x) && decide (x ≤ 1.0)) := by
    unfold InferenceValues.isPenalty
    rw [Bool.eq_iff_iff, Bool.and_eq_true, Bool.and_eq_true, SettingNumber.isAtMost_real_iff,
      SettingNumber.isAtMost_real_iff, decide_eq_true_iff, decide_eq_true_iff]
  unfold checkPenalty
  rw [hpenalty]
  cases decide (0.0 ≤ x) && decide (x ≤ 1.0) <;> rfl

/-- Settings are checked like the values of options. -/
theorem InferenceSettings.values_check (s : InferenceSettings) :
    s.values.check = (FromDocument.checked s.check).map fun _ => () := by
  unfold InferenceValues.check check
  simp only [FromDocument.checked_bind, FromDocument.map_bind]
  refine FromDocument.bind_eq_bind (FromDocument.refuseIf_real _ _ _ _ (checkPenalty_eq _))
    fun _ => ?_
  refine FromDocument.bind_eq_bind (FromDocument.refuseIf_count _ _ 1 _) fun _ => ?_
  rfl

/-- A checked configuration has the settings as its values. -/
theorem ProbeSettings.values_eq {s : ProbeSettings} {c : ProbeConfig} (h : s.check = .ok c) :
    c.values = s.values := by
  obtain ⟨budget, hbudget, h⟩ := bind_eq_ok_iff.mp h
  obtain ⟨base, hbase, h⟩ := bind_eq_ok_iff.mp h
  obtain ⟨length, hlength, h⟩ := bind_eq_ok_iff.mp h
  obtain ⟨threshold, hthreshold, h⟩ := bind_eq_ok_iff.mp h
  obtain ⟨method, hmethod, h⟩ := bind_eq_ok_iff.mp h
  obtain rfl := Except.ok.inj h
  -- every check returns the value that it was given
  have hbudget : budget = s.budget := by
    unfold checkBudget at hbudget
    split at hbudget
    next => cases hbudget
    next => exact (Except.ok.inj hbudget).symm
  have hbase : (base : Int) = s.baseRepetitions := FromDocument.cast_of_count 1 hbase
  have hlength : (length : Int) = s.maxInputLength := FromDocument.cast_of_count base hlength
  have hthreshold : threshold = s.growthThreshold := by
    unfold checkThreshold at hthreshold
    split at hthreshold
    next => cases hthreshold
    next => exact (Except.ok.inj hthreshold).symm
  have hmethod : method.name = s.startMethod := by
    unfold checkStartMethod at hmethod
    split at hmethod
    next => cases hmethod
    next found hfound =>
      rw [← Except.ok.inj hmethod]
      exact StartMethod.name_of_ofName? hfound
  unfold ProbeConfig.values values
  rw [hbudget, hbase, hlength, hthreshold, hmethod]

theorem InferenceSettings.values_eq {s : InferenceSettings} {c : InferenceConfig}
    (h : s.check = .ok c) : c.values = s.values := by
  obtain ⟨penalty, hpenalty, h⟩ := bind_eq_ok_iff.mp h
  obtain ⟨candidates, hcandidates, h⟩ := bind_eq_ok_iff.mp h
  obtain rfl := Except.ok.inj h
  have hpenalty : penalty = s.rangePenalty := by
    unfold checkPenalty at hpenalty
    split at hpenalty
    next => exact (Except.ok.inj hpenalty).symm
    next => cases hpenalty
  have hcandidates : (candidates : Int) = s.maxCandidates :=
    FromDocument.cast_of_count 1 hcandidates
  unfold InferenceConfig.values values
  rw [hpenalty, hcandidates]

namespace FromDocument

theorem eq_ok_of_checked {α : Type} {x : Except ConfigError α} {a : α} (h : checked x = .ok a) :
    x = .ok a := by
  cases x with
  | error e => cases h
  | ok b => rw [Except.ok.inj h]

/-- Loading an environment checks the settings of its variables. -/
theorem ofEnvironment_inDocument {env : Environment} {settings : ProbeSettings}
    (h : env.probeSettings = .ok settings) :
    (AnalysisConfig.ofEnvironment env).mapError BudgetError.inDocument =
      (checked settings.check >>= fun probe =>
        (checked env.inferenceSettings.check).map fun inference =>
          ⟨probe, inference, env.names? "REGEXSCOPE_DIALECTS"⟩) := by
  unfold AnalysisConfig.ofEnvironment
  rw [h]
  show Except.mapError BudgetError.inDocument
    (settings.check.mapError BudgetError.config >>= fun probe =>
      env.inferenceSettings.check.mapError BudgetError.config >>= fun inference =>
        Except.ok (AnalysisConfig.mk probe inference (env.names? "REGEXSCOPE_DIALECTS"))) = _
  cases settings.check with
  | error e => rfl
  | ok probe => cases env.inferenceSettings.check <;> rfl

/-- Loading an environment ends as its verdicts say. -/
theorem ends_ofEnvironment (env : Environment) :
    Ends ((AnalysisConfig.ofEnvironment env).mapError BudgetError.inDocument)
      (fun config => config.values.IsWithin) (.settle (LoadVerdict.ofEnvironment env)) := by
  unfold LoadVerdict.ofEnvironment
  cases hsettings : env.probeSettings with
  | error e =>
    unfold AnalysisConfig.ofEnvironment
    rw [hsettings]
    exact ⟨.duration e, rfl, nofun⟩
  | ok settings =>
    -- both parts agree with their verdicts, and so does the one after the other
    have hprobe := agrees_probe settings.values
    rw [ProbeSettings.values_check, agrees_map] at hprobe
    have hinference := agrees_inference env.inferenceSettings.values
    rw [InferenceSettings.values_check, agrees_map] at hinference
    dsimp only
    rw [ofEnvironment_inDocument hsettings, LoadVerdict.settle_append]
    refine (hprobe.bind fun probe _ => agrees_map.mpr hinference).ends fun config hconfig => ?_
    obtain ⟨probe, hchecked, hconfig⟩ := bind_eq_ok_iff.mp hconfig
    cases hinference' : checked env.inferenceSettings.check with
    | error e =>
      rw [hinference'] at hconfig
      cases hconfig
    | ok inference =>
      rw [hinference'] at hconfig
      obtain rfl := Except.ok.inj hconfig
      have hvalues := ProbeSettings.values_eq (eq_ok_of_checked hchecked)
      have hvalues' := InferenceSettings.values_eq (eq_ok_of_checked hinference')
      rw [LoadVerdict.andThen_eq_fits_iff, LoadVerdict.settle_ofProbe_eq_fits_iff,
        LoadVerdict.settle_ofInference_eq_fits_iff, ← hvalues, ← hvalues']
      exact ⟨fun h => ⟨h.probe, h.inference⟩, fun h => ⟨h.1, h.2⟩⟩

/-- What slips through in an environment ends up in its configuration. -/
theorem config_of_slips {env : Environment}
    (h : LoadVerdict.settle (LoadVerdict.ofEnvironment env) = .slips) :
    ∃ config, AnalysisConfig.ofEnvironment env = .ok config ∧ ¬ config.values.IsWithin := by
  have hends := ends_ofEnvironment env
  rw [h] at hends
  obtain ⟨config, hconfig, hwithin⟩ := hends
  refine ⟨config, ?_, hwithin⟩
  cases henv : AnalysisConfig.ofEnvironment env with
  | error e =>
    rw [henv] at hconfig
    cases hconfig
  | ok config' =>
    rw [henv] at hconfig
    rw [Except.ok.inj hconfig]

end FromDocument

/-! ## Section 4: Loading -/

/-- What loading a configuration ends in, from a document and from an
    environment: a configuration within its bounds if everything fits, one that
    is not within them if something slips through, and otherwise a
    configuration error or another error, as the first look says that does not
    let it go on. -/
theorem loading_ends (document : PartFields) (env : Environment) :
    (ConfigValues.ofDocument document).Ends ConfigValues.IsWithin
        (.settle (LoadVerdict.ofDocument document)) ∧
      FromDocument.Ends ((AnalysisConfig.ofEnvironment env).mapError BudgetError.inDocument)
        (fun config => config.values.IsWithin) (.settle (LoadVerdict.ofEnvironment env)) :=
  ⟨FromDocument.ends_ofDocument document, FromDocument.ends_ofEnvironment env⟩

/-- A threshold that is no number is loaded, and a size that is a text ends
    the loading with another error than a configuration error. -/
theorem loading_slips_of_nan :
    (∃ config, AnalysisConfig.ofEnvironment
        ⟨[("REGEXSCOPE_PROBE_GROWTH_THRESHOLD", "nan")]⟩ = .ok config ∧
      ¬ config.values.IsWithin) ∧
    ∃ e, ConfigValues.ofDocument [("probe", .mapping [("base_repetitions", .text "8")])] =
        .error e ∧ ∀ fault, e ≠ .config fault := by
  constructor
  · exact FromDocument.config_of_slips (by decide +kernel)
  · have hfails : LoadVerdict.settle (LoadVerdict.ofDocument
        [("probe", .mapping [("base_repetitions", .text "8")])]) = .fails := by decide +kernel
    have hends := FromDocument.ends_ofDocument
      [("probe", .mapping [("base_repetitions", .text "8")])]
    rw [hfails] at hends
    exact hends

end RegexInsight
