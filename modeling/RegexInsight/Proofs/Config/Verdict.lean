import Mathlib
import RegexInsight.Config.Document
import RegexInsight.Proofs.Decimal.Order

/-! # Verdicts on Options

    Loading a configuration looks at one option after another, and each of
    them comes to one of four things: the value fits, it is refused, the
    reading fails in another way, or the value slips through although it is
    not within its bound.  The first refusal or failure ends the loading.

    Values slip through because a check refuses what compares the wrong way
    with the bound, and what is no number compares in no way.  The one check
    that asks for the right way, that of the penalty, has no such gap.  A
    reading fails on values that cannot be compared or converted at all. -/

namespace RegexInsight

/-! ## Section 1: Numbers -/

namespace SettingNumber

variable {a b : SettingNumber}

/-- What is less than something is a number, and so is that. -/
theorem numbers_of_isBelow (h : a.isBelow b = true) : a.isNaN = false ∧ b.isNaN = false := by
  have hnan : (0.0 / 0.0 : Float).isNaN = true := by decide
  have hnone : Setting.wholeBelow? (0.0 / 0.0) = none := by decide
  have hnone' : Setting.wholeBelow? (-(0.0 / 0.0)) = none := by decide
  have hnot : ¬ (0.0 / 0.0 : Float) < 0.0 := by decide
  have hnot' : ¬ (0.0 : Float) < 0.0 / 0.0 := by decide
  -- only one double is no number, so what it compares with can be computed
  have hcases : ∀ x : Float, x.isNaN = false ∨ x = 0.0 / 0.0 := by
    intro x
    cases hx : x.isNaN with
    | false => exact .inl rfl
    | true => exact .inr (Double.eq_of_isNaN hx hnan)
  cases a with
  | whole m =>
    refine ⟨rfl, ?_⟩
    cases b with
    | whole n => rfl
    | real y =>
      rcases hcases y with hy | rfl
      · exact hy
      · exact absurd h (by simp [isBelow, hnone', hnot'])
  | real x =>
    cases b with
    | whole n =>
      rcases hcases x with hx | rfl
      · exact ⟨hx, rfl⟩
      · exact absurd h (by simp [isBelow, hnone, hnot])
    | real y => exact Double.numbers_of_lt (of_decide_eq_true h)

theorem isAtMost_iff :
    a.isAtMost b = true ↔ (a.isNaN = false ∧ b.isNaN = false) ∧ b.isBelow a = false := by
  simp only [isAtMost, Bool.and_eq_true, Bool.not_eq_true']

theorem isAtMost_real_iff {x y : Float} : (real x).isAtMost (real y) = true ↔ x ≤ y := by
  rw [isAtMost_iff]
  constructor
  · rintro ⟨⟨hx, hy⟩, hnot⟩
    exact Double.le_of_not_lt hy hx (of_decide_eq_false hnot)
  · intro hle
    exact ⟨Double.numbers_of_le hle, decide_eq_false (Double.not_lt_of_le hle)⟩

/-- What is below something is a number that it is not at most. -/
theorem isBelow_iff :
    b.isBelow a = true ↔ (a.isNaN = false ∧ b.isNaN = false) ∧ a.isAtMost b = false := by
  constructor
  · intro h
    obtain ⟨hb, ha⟩ := numbers_of_isBelow h
    refine ⟨⟨ha, hb⟩, ?_⟩
    simp [isAtMost, ha, hb, h]
  · rintro ⟨⟨ha, hb⟩, hnot⟩
    simpa [isAtMost, ha, hb] using hnot

end SettingNumber

/-! ## Section 2: Verdicts -/

/-- What looking at an option comes to. -/
inductive LoadVerdict where
  /-- The value is within its bound. -/
  | fits
  /-- The value is not within its bound, and this goes unnoticed. -/
  | slips
  /-- A configuration error is reported. -/
  | refused
  /-- The loading ends with another error. -/
  | fails
  deriving DecidableEq, Repr

namespace LoadVerdict

/-- What two looks in a row come to: a refusal or a failure ends the loading,
    and whatever slipped through is not found later on. -/
def andThen : LoadVerdict → LoadVerdict → LoadVerdict
  | fits, later => later
  | slips, fits => slips
  | slips, later => later
  | first, _ => first

/-- What all looks come to. -/
def settle (verdicts : List LoadVerdict) : LoadVerdict :=
  verdicts.foldr andThen fits

variable {v w : LoadVerdict} {vs ws : List LoadVerdict}

@[simp] theorem settle_nil : settle [] = fits := rfl

@[simp] theorem settle_cons : settle (v :: vs) = v.andThen (settle vs) := rfl

theorem andThen_assoc (u v w : LoadVerdict) :
    (u.andThen v).andThen w = u.andThen (v.andThen w) := by
  cases u <;> cases v <;> cases w <;> rfl

@[simp] theorem settle_append : settle (vs ++ ws) = (settle vs).andThen (settle ws) := by
  induction vs with
  | nil => rfl
  | cons v rest ih => rw [List.cons_append, settle_cons, settle_cons, ih, andThen_assoc]

@[simp] theorem andThen_eq_fits_iff : v.andThen w = fits ↔ v = fits ∧ w = fits := by
  cases v <;> cases w <;> decide

/-- Loading fails unless a condition holds. -/
def failsUnless (condition : Bool) : LoadVerdict :=
  if condition then fits else fails

/-- A value that has to be a number. -/
def ofNumber (look : SettingNumber → LoadVerdict) (value : Setting) : LoadVerdict :=
  match value.number? with
  | some n => look n
  | none => fails

/-- Two numbers of which the first is the bound of the second: `holds` tells
    whether they are in the right order. -/
def ofOrder (holds : SettingNumber → SettingNumber → Bool) (m n : SettingNumber) : LoadVerdict :=
  if m.isNaN || n.isNaN then slips else if holds m n then fits else refused

/-- A value against a bound. -/
def ofBound (holds : SettingNumber → SettingNumber → Bool) (bound value : Setting) : LoadVerdict :=
  ofNumber (fun m => ofNumber (ofOrder holds m) value) bound

/-- A number that has to lie between zero and one. -/
def ofPenalty (n : SettingNumber) : LoadVerdict :=
  if InferenceValues.isPenalty n then fits else refused

/-- A value that has to name a start method; to refuse it, it has to be
    shown. -/
def ofStartMethod : Setting → LoadVerdict
  | .text name => if (StartMethod.ofName? name).isSome then fits else refused
  | value => if value.isShowable then refused else fails

end LoadVerdict

namespace FromDocument

variable {α β : Type} {r : FromDocument α} {f : α → FromDocument β} {v w : LoadVerdict}

/-- The reading goes on or ends as a verdict says. -/
def Agrees (r : FromDocument α) : LoadVerdict → Prop
  | .fits | .slips => ∃ a, r = .ok a
  | .refused => ∃ fault, r = .error (.config fault)
  | .fails => ∃ e, r = .error e ∧ ∀ fault, e ≠ .config fault

/-- The reading ends as a verdict says: with something that is within its
    bounds, with something that is not, with a configuration error, or with
    another one. -/
def Ends (r : FromDocument α) (within : α → Prop) : LoadVerdict → Prop
  | .fits => ∃ a, r = .ok a ∧ within a
  | .slips => ∃ a, r = .ok a ∧ ¬ within a
  | .refused => ∃ fault, r = .error (.config fault)
  | .fails => ∃ e, r = .error e ∧ ∀ fault, e ≠ .config fault

theorem Agrees.bind (h : r.Agrees v) (hrest : ∀ a, r = .ok a → (f a).Agrees w) :
    Agrees (r >>= f) (v.andThen w) := by
  cases v with
  | fits =>
    obtain ⟨a, rfl⟩ := h
    exact hrest a rfl
  | slips =>
    obtain ⟨a, rfl⟩ := h
    have hlater := hrest a rfl
    cases w <;> exact hlater
  | refused =>
    obtain ⟨fault, rfl⟩ := h
    exact ⟨fault, rfl⟩
  | fails =>
    obtain ⟨e, rfl, hother⟩ := h
    exact ⟨e, rfl, hother⟩

/-- A reading goes on if nothing was refused and nothing failed. -/
theorem Agrees.goes_on {a : α} (h : r.Agrees v) (ha : r = .ok a) : v = .fits ∨ v = .slips := by
  subst ha
  cases v with
  | fits => exact .inl rfl
  | slips => exact .inr rfl
  | refused =>
    obtain ⟨fault, h⟩ := h
    cases h
  | fails =>
    obtain ⟨e, h, -⟩ := h
    cases h

/-- If a reading goes on, everything fits or something slipped through. -/
theorem Agrees.ends {within : α → Prop} (h : r.Agrees v)
    (hwithin : ∀ a, r = .ok a → (within a ↔ v = .fits)) : r.Ends within v := by
  cases v with
  | fits =>
    obtain ⟨a, ha⟩ := h
    exact ⟨a, ha, (hwithin a ha).mpr rfl⟩
  | slips =>
    obtain ⟨a, ha⟩ := h
    exact ⟨a, ha, fun hw => LoadVerdict.noConfusion ((hwithin a ha).mp hw)⟩
  | refused => exact h
  | fails => exact h

theorem agrees_failsUnless {condition : Bool} (hok : condition = true → ∃ a, r = .ok a)
    (herror : condition = false → ∃ e, r = .error e ∧ ∀ fault, e ≠ .config fault) :
    r.Agrees (.failsUnless condition) := by
  cases condition with
  | true => exact hok rfl
  | false => exact herror rfl

/-! ## Section 3: Bounds -/

/-- A check of a number agrees with a look that refuses the same numbers. -/
theorem agrees_refuseIf {bad : SettingNumber → Bool} {fault : ConfigError} {name : String}
    {value : Setting} {look : SettingNumber → LoadVerdict}
    (hbad : ∀ n, bad n = true → look n = .refused)
    (hgood : ∀ n, bad n = false → look n = .fits ∨ look n = .slips) :
    (refuseIf bad fault name value).Agrees (.ofNumber look value) := by
  unfold refuseIf number LoadVerdict.ofNumber
  cases value.number? with
  | none => exact ⟨_, rfl, nofun⟩
  | some n =>
    show (if bad n then Except.error (.config fault) else Except.ok n : FromDocument _).Agrees
      (look n)
    cases hn : bad n with
    | true =>
      rw [hbad n hn]
      exact ⟨fault, rfl⟩
    | false =>
      rcases hgood n hn with hlook | hlook
      · rw [hlook]
        exact ⟨n, rfl⟩
      · rw [hlook]
        exact ⟨n, rfl⟩

/-- What is not refused is the number that it is compared as. -/
theorem number?_of_refuseIf {bad : SettingNumber → Bool} {fault : ConfigError} {name : String}
    {value : Setting} {n : SettingNumber} (h : refuseIf bad fault name value = .ok n) :
    value.number? = some n := by
  unfold refuseIf number at h
  cases hvalue : value.number? with
  | none =>
    rw [hvalue] at h
    cases h
  | some m =>
    rw [hvalue] at h
    change (if bad m then Except.error (.config fault) else Except.ok m : FromDocument _) = _ at h
    split at h
    next => cases h
    next => exact congrArg some (Except.ok.inj h)

/-- A check refuses what compares the wrong way with the bound. -/
theorem agrees_ofBound {bad : SettingNumber → Bool} {holds : SettingNumber → SettingNumber → Bool}
    {fault : ConfigError} {name : String} {bound value : Setting} {m : SettingNumber}
    (hbound : bound.number? = some m)
    (hbad : ∀ n, bad n = true ↔ (m.isNaN = false ∧ n.isNaN = false) ∧ holds m n = false) :
    (refuseIf bad fault name value).Agrees (.ofBound holds bound value) := by
  unfold LoadVerdict.ofBound
  rw [LoadVerdict.ofNumber, hbound]
  refine agrees_refuseIf (fun n hn => ?_) fun n hn => ?_
  · obtain ⟨⟨hm, hn⟩, hholds⟩ := (hbad n).mp hn
    simp [LoadVerdict.ofOrder, hm, hn, hholds]
  · rw [← Bool.not_eq_true, hbad n] at hn
    unfold LoadVerdict.ofOrder
    split
    next => exact .inr rfl
    next hnumbers =>
      rw [Bool.or_eq_true, not_or, Bool.not_eq_true, Bool.not_eq_true] at hnumbers
      have hholds : holds m n = true := by
        by_contra hfalse
        exact hn ⟨hnumbers, Bool.eq_false_iff.mpr hfalse⟩
      rw [if_pos hholds]
      exact .inl rfl

theorem agrees_startMethod (value : Setting) :
    (startMethod value).Agrees (.ofStartMethod value) := by
  cases value with
  | text name =>
    unfold startMethod ProbeSettings.checkStartMethod LoadVerdict.ofStartMethod
    dsimp only
    cases StartMethod.ofName? name with
    | none => exact ⟨_, rfl⟩
    | some method => exact ⟨method, rfl⟩
  | _ =>
    unfold startMethod LoadVerdict.ofStartMethod
    dsimp only
    split
    next => exact ⟨_, rfl⟩
    next => exact ⟨_, rfl, nofun⟩

end FromDocument

/-! ## Section 4: Values -/

theorem StartMethod.name_of_ofName? {name : String} {method : StartMethod}
    (h : ofName? name = some method) : method.name = name := by
  unfold ofName? at h
  have hfound := List.find?_some h
  exact eq_of_beq hfound

/-- Two settings are numbers and compare. -/
def Setting.Compares (holds : SettingNumber → SettingNumber → Bool) (a b : Setting) : Prop :=
  ∃ m n, a.number? = some m ∧ b.number? = some n ∧ holds m n = true

/-- The values of the probe options are within their bounds. -/
structure ProbeValues.IsWithin (v : ProbeValues) : Prop where
  budget : 0 < v.budget.microseconds
  baseRepetitions : Setting.Compares SettingNumber.isAtMost (.int 1) v.baseRepetitions
  maxInputLength : Setting.Compares SettingNumber.isAtMost v.baseRepetitions v.maxInputLength
  growthThreshold : Setting.Compares SettingNumber.isBelow (.real 2.0) v.growthThreshold
  startMethod : ∃ method : StartMethod, v.startMethod = .text method.name

/-- The values of the inference options are within their bounds. -/
structure InferenceValues.IsWithin (v : InferenceValues) : Prop where
  rangePenalty : Setting.Compares SettingNumber.isAtMost (.real 0.0) v.rangePenalty ∧
    Setting.Compares SettingNumber.isAtMost v.rangePenalty (.real 1.0)
  maxCandidates : Setting.Compares SettingNumber.isAtMost (.int 1) v.maxCandidates

namespace LoadVerdict

/-- The sign of a budget. -/
def ofBudget (budget : Duration) : LoadVerdict :=
  if 0 < budget.microseconds then fits else refused

/-- What looking at the probe options comes to, one by one. -/
def ofProbe (v : ProbeValues) : List LoadVerdict :=
  [ofBudget v.budget, ofBound SettingNumber.isAtMost (.int 1) v.baseRepetitions,
    ofBound SettingNumber.isAtMost v.baseRepetitions v.maxInputLength,
    ofBound SettingNumber.isBelow (.real 2.0) v.growthThreshold, ofStartMethod v.startMethod]

/-- What looking at the inference options comes to, one by one. -/
def ofInference (v : InferenceValues) : List LoadVerdict :=
  [ofNumber ofPenalty v.rangePenalty, ofBound SettingNumber.isAtMost (.int 1) v.maxCandidates]

variable {holds : SettingNumber → SettingNumber → Bool} {bound value : Setting}

theorem ofNumber_eq_fits_iff {look : SettingNumber → LoadVerdict} :
    ofNumber look value = fits ↔ ∃ n, value.number? = some n ∧ look n = fits := by
  unfold ofNumber
  cases value.number? with
  | none => simp
  | some n => simp

/-- A value fits if it compares with its bound. -/
theorem ofBound_eq_fits_iff
    (hholds : ∀ {m n}, holds m n = true → m.isNaN = false ∧ n.isNaN = false) :
    ofBound holds bound value = fits ↔ Setting.Compares holds bound value := by
  have horder : ∀ m n, ofOrder holds m n = fits ↔ holds m n = true := by
    intro m n
    unfold ofOrder
    constructor
    · intro h
      split at h
      next => cases h
      next =>
        split at h
        next hmn => exact hmn
        next => cases h
    · intro hmn
      obtain ⟨hm, hn⟩ := hholds hmn
      simp [hm, hn, hmn]
  simp only [ofBound, ofNumber_eq_fits_iff, horder, Setting.Compares]
  constructor
  · rintro ⟨m, hm, n, hn, hmn⟩
    exact ⟨m, n, hm, hn, hmn⟩
  · rintro ⟨m, n, hm, hn, hmn⟩
    exact ⟨m, hm, n, hn, hmn⟩

theorem ofAtMost_eq_fits_iff :
    ofBound SettingNumber.isAtMost bound value = fits ↔
      Setting.Compares SettingNumber.isAtMost bound value :=
  ofBound_eq_fits_iff fun h => (SettingNumber.isAtMost_iff.mp h).1

theorem ofBelow_eq_fits_iff :
    ofBound SettingNumber.isBelow bound value = fits ↔
      Setting.Compares SettingNumber.isBelow bound value :=
  ofBound_eq_fits_iff SettingNumber.numbers_of_isBelow

theorem ofStartMethod_eq_fits_iff :
    ofStartMethod value = fits ↔ ∃ method : StartMethod, value = .text method.name := by
  constructor
  · intro h
    cases value with
    | text name =>
      unfold ofStartMethod at h
      dsimp only at h
      split at h
      next hknown =>
        obtain ⟨method, hmethod⟩ := Option.isSome_iff_exists.mp hknown
        exact ⟨method, congrArg Setting.text (StartMethod.name_of_ofName? hmethod).symm⟩
      next => cases h
    | _ =>
      unfold ofStartMethod at h
      dsimp only at h
      split at h <;> cases h
  · rintro ⟨method, rfl⟩
    cases method <;> rfl

theorem ofPenalty_eq_fits_iff :
    ofNumber ofPenalty value = fits ↔ Setting.Compares SettingNumber.isAtMost (.real 0.0) value ∧
      Setting.Compares SettingNumber.isAtMost value (.real 1.0) := by
  rw [ofNumber_eq_fits_iff]
  constructor
  · rintro ⟨n, hn, hpenalty⟩
    unfold ofPenalty at hpenalty
    split at hpenalty
    next hwithin =>
      obtain ⟨hlow, hhigh⟩ := Bool.and_eq_true_iff.mp hwithin
      exact ⟨⟨_, n, rfl, hn, hlow⟩, n, _, hn, rfl, hhigh⟩
    next => cases hpenalty
  · rintro ⟨⟨zero, n, hzero, hn, hlow⟩, m, one, hm, hone, hhigh⟩
    obtain rfl := Option.some.inj hzero
    obtain rfl := Option.some.inj hone
    obtain rfl := Option.some.inj (hn.symm.trans hm)
    exact ⟨n, hn, if_pos (Bool.and_eq_true_iff.mpr ⟨hlow, hhigh⟩)⟩

/-- All probe options fit if their values are within their bounds. -/
theorem settle_ofProbe_eq_fits_iff {v : ProbeValues} : settle (ofProbe v) = fits ↔ v.IsWithin := by
  have hbudget : ofBudget v.budget = fits ↔ 0 < v.budget.microseconds := by
    unfold ofBudget
    split
    next hpos => exact iff_of_true rfl hpos
    next hpos => exact iff_of_false nofun hpos
  simp only [ofProbe, settle_cons, settle_nil, andThen_eq_fits_iff, hbudget, ofAtMost_eq_fits_iff,
    ofBelow_eq_fits_iff, ofStartMethod_eq_fits_iff, and_true]
  constructor
  · rintro ⟨hpos, hbase, hlength, hthreshold, hmethod⟩
    exact ⟨hpos, hbase, hlength, hthreshold, hmethod⟩
  · intro h
    exact ⟨h.budget, h.baseRepetitions, h.maxInputLength, h.growthThreshold, h.startMethod⟩

theorem settle_ofInference_eq_fits_iff {v : InferenceValues} :
    settle (ofInference v) = fits ↔ v.IsWithin := by
  simp only [ofInference, settle_cons, settle_nil, andThen_eq_fits_iff, ofPenalty_eq_fits_iff,
    ofAtMost_eq_fits_iff, and_true]
  exact ⟨fun h => ⟨h.1, h.2⟩, fun h => ⟨h.rangePenalty, h.maxCandidates⟩⟩

end LoadVerdict

namespace FromDocument

theorem agrees_checkBudget (budget : Duration) :
    (checked (ProbeSettings.checkBudget budget)).Agrees (.ofBudget budget) := by
  unfold ProbeSettings.checkBudget LoadVerdict.ofBudget
  by_cases hpos : 0 < budget.microseconds
  · rw [if_pos hpos, if_neg (Int.not_le.mpr hpos)]
    exact ⟨budget, rfl⟩
  · rw [if_neg hpos, if_pos (Int.not_lt.mp hpos)]
    exact ⟨_, rfl⟩

/-- The checks of the probe options come to what their verdicts say. -/
theorem agrees_probe (v : ProbeValues) : v.check.Agrees (.settle (LoadVerdict.ofProbe v)) := by
  refine (agrees_checkBudget v.budget).bind fun _ _ => ?_
  refine (agrees_ofBound rfl fun n => SettingNumber.isBelow_iff).bind fun base hbase => ?_
  refine (agrees_ofBound (number?_of_refuseIf hbase) fun n => SettingNumber.isBelow_iff).bind
    fun _ _ => ?_
  refine (agrees_ofBound rfl fun n => ?_).bind fun _ _ => ?_
  · rw [SettingNumber.isAtMost_iff]
    exact and_congr_left' and_comm
  · exact (agrees_startMethod v.startMethod).bind fun _ _ => ⟨(), rfl⟩

theorem agrees_inference (v : InferenceValues) :
    v.check.Agrees (.settle (LoadVerdict.ofInference v)) := by
  refine (@agrees_refuseIf _ _ _ _ LoadVerdict.ofPenalty (fun n hn => ?_) fun n hn => ?_).bind
    fun _ _ => ?_
  · exact if_neg (by simpa using hn)
  · exact .inl (if_pos (by simpa using hn))
  · exact (agrees_ofBound rfl fun n => SettingNumber.isBelow_iff).bind fun _ _ => ⟨(), rfl⟩

end FromDocument

end RegexInsight
