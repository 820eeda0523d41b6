import Mathlib
import RegexInsight.Text.Run

/-! # Splitting into runs

    The runs of a text put together are the text, and every run holds what
    its kind says: characters of that kind, and no more than one of them if
    they are punctuation. -/

namespace RegexInsight

/-! ## Section 1: Kinds -/

namespace CharKind

variable {c : Char}

/-- The kind of a character by the first range that it is in. -/
theorem ofChar_cases (c : Char) :
    ('0' ≤ c ∧ c ≤ '9' ∧ ofChar c = digit) ∨
      (¬ ('0' ≤ c ∧ c ≤ '9') ∧ (('a' ≤ c ∧ c ≤ 'z') ∨ ('A' ≤ c ∧ c ≤ 'Z')) ∧ ofChar c = letter) ∨
      (¬ ('0' ≤ c ∧ c ≤ '9') ∧ ¬ (('a' ≤ c ∧ c ≤ 'z') ∨ ('A' ≤ c ∧ c ≤ 'Z')) ∧
        (ofChar c = punct ∨ ofChar c = other)) := by
  unfold ofChar
  simp only [Bool.and_eq_true, Bool.or_eq_true, decide_eq_true_eq]
  split
  next hdigit => exact .inl ⟨hdigit.1, hdigit.2, rfl⟩
  next hdigit =>
    split
    next hletter => exact .inr (.inl ⟨hdigit, hletter, rfl⟩)
    next hletter =>
      refine .inr (.inr ⟨hdigit, hletter, ?_⟩)
      split
      next => exact .inl rfl
      next => exact .inr rfl

theorem ofChar_eq_digit_iff : ofChar c = digit ↔ '0' ≤ c ∧ c ≤ '9' := by
  rcases ofChar_cases c with ⟨hlo, hhi, heq⟩ | ⟨hdigit, -, heq⟩ | ⟨hdigit, -, heq | heq⟩
  · simp [heq, hlo, hhi]
  · simp [heq, hdigit]
  · simp [heq, hdigit]
  · simp [heq, hdigit]

theorem ofChar_eq_letter_iff :
    ofChar c = letter ↔ ('a' ≤ c ∧ c ≤ 'z') ∨ ('A' ≤ c ∧ c ≤ 'Z') := by
  rcases ofChar_cases c with ⟨-, hhi, heq⟩ | ⟨-, hletter, heq⟩ | ⟨-, hletter, heq | heq⟩
  · -- letters stand behind the digits
    have hlower : ¬ 'a' ≤ c := not_le.mpr (lt_of_le_of_lt hhi (by decide))
    have hupper : ¬ 'A' ≤ c := not_le.mpr (lt_of_le_of_lt hhi (by decide))
    simp [heq, hlower, hupper]
  · simp [heq, hletter]
  · simp [heq, hletter]
  · simp [heq, hletter]

end CharKind

namespace Run

/-! ## Section 2: What runs hold -/

/-- The characters of a run are what its kind says. -/
structure IsUniform (r : Run) : Prop where
  nonempty : r.text ≠ []
  kinds : ∀ c ∈ r.text, CharKind.ofChar c = r.kind
  single : r.kind = .punct → r.text.length = 1

variable {r : Run} {runs : List Run} {c : Char}

theorem isUniform_singleton (c : Char) : IsUniform ⟨.ofChar c, [c]⟩ where
  nonempty := List.cons_ne_nil c []
  kinds := by
    intro d hd
    obtain rfl := List.mem_singleton.mp hd
    rfl
  single := fun _ => rfl

theorem IsUniform.cons (h : r.IsUniform) (hkind : CharKind.ofChar c = r.kind)
    (hpunct : r.kind ≠ .punct) : IsUniform ⟨r.kind, c :: r.text⟩ where
  nonempty := List.cons_ne_nil c r.text
  kinds := List.forall_mem_cons.mpr ⟨hkind, h.kinds⟩
  single := fun hmark => absurd hmark hpunct

/-- A character begins a run of its own, or it joins the first run. -/
theorem prepend_cases (c : Char) (runs : List Run) :
    prepend c runs = ⟨.ofChar c, [c]⟩ :: runs ∨
      ∃ r rest, runs = r :: rest ∧ CharKind.ofChar c = r.kind ∧ r.kind ≠ .punct ∧
        prepend c runs = ⟨r.kind, c :: r.text⟩ :: rest := by
  cases runs with
  | nil => exact .inl rfl
  | cons r rest =>
    by_cases hjoin : CharKind.ofChar c = r.kind ∧ CharKind.ofChar c ≠ .punct
    · obtain ⟨hkind, hpunct⟩ := hjoin
      refine .inr ⟨r, rest, rfl, hkind, hkind ▸ hpunct, ?_⟩
      simp [prepend, hkind, hkind ▸ hpunct]
    · left
      simp only [prepend, Bool.and_eq_true, decide_eq_true_eq]
      exact if_neg hjoin

theorem flatten_prepend (c : Char) (runs : List Run) :
    ((prepend c runs).map text).flatten = c :: (runs.map text).flatten := by
  rcases prepend_cases c runs with hown | ⟨r, rest, rfl, -, -, hjoined⟩
  · rw [hown]
    rfl
  · rw [hjoined]
    rfl

theorem isUniform_of_mem_prepend (h : ∀ r ∈ runs, r.IsUniform) :
    ∀ r ∈ prepend c runs, r.IsUniform := by
  rcases prepend_cases c runs with hown | ⟨first, rest, rfl, hkind, hpunct, hjoined⟩
  · rw [hown]
    exact List.forall_mem_cons.mpr ⟨isUniform_singleton c, h⟩
  · rw [hjoined]
    obtain ⟨hfirst, hrest⟩ := List.forall_mem_cons.mp h
    exact List.forall_mem_cons.mpr ⟨hfirst.cons hkind hpunct, hrest⟩

/-- The runs of a text are the text. -/
theorem flatten_split (text : Text) : ((split text).map Run.text).flatten = text := by
  induction text with
  | nil => rfl
  | cons c rest ih =>
    show ((prepend c (split rest)).map Run.text).flatten = _
    rw [flatten_prepend, ih]

/-- Every run of a text is what its kind says. -/
theorem isUniform_of_mem_split {text : Text} : ∀ r ∈ split text, r.IsUniform := by
  induction text with
  | nil => exact fun r hr => absurd hr List.not_mem_nil
  | cons c rest ih => exact isUniform_of_mem_prepend ih

end Run

end RegexInsight
