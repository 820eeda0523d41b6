import Mathlib
import RegexInsight.Form
import RegexInsight.Proofs.Pattern.Move

/-! # The language of a form

    A form describes a language: classes describe single characters, and
    sequence, choice and repetition are the operations on languages of
    these names.  A form decides its language by what may remain of it,
    character by character. -/

namespace RegexInsight

/-! ## Section 1: Languages -/

/-- The bounds admit a number of repetitions. -/
def Bounds.Admits (b : Bounds) (n : Nat) : Prop :=
  b.min ≤ n ∧ ∀ high, b.max = some high → n ≤ high

/-- One character that a class accepts. -/
def FormClass.language (a : FormClass) : Language Char :=
  {w | ∃ c, a.accepts c = true ∧ w = [c]}

namespace Form

/-- The texts that a form describes. -/
def language : Form → Language Char
  | empty => 1
  | one accepted => accepted.language
  | seq first second => first.language * second.language
  | alt left right => left.language + right.language
  | rep body bounds => {w | ∃ n, bounds.Admits n ∧ w ∈ body.language ^ n}

/-- Every repetition in a form has its bounds in order. -/
def IsOrdered : Form → Prop
  | empty => True
  | one _ => True
  | seq first second => first.IsOrdered ∧ second.IsOrdered
  | alt left right => left.IsOrdered ∧ right.IsOrdered
  | rep body bounds => body.IsOrdered ∧ bounds.Ordered

variable {form first second : Form} {bounds : Bounds} {c : Char} {w : Text}

theorem mem_language_rep {body : Form} :
    w ∈ (rep body bounds).language ↔ ∃ n, bounds.Admits n ∧ w ∈ body.language ^ n :=
  Iff.rfl

/-- Some forms in sequence describe the product of their languages. -/
theorem language_sequence (forms : List Form) :
    (sequence forms).language = (forms.map language).prod := by
  induction forms with
  | nil => rfl
  | cons first rest ih =>
    show first.language * (sequence rest).language = _
    rw [ih, List.map_cons, List.prod_cons]

theorem isOrdered_sequence {forms : List Form} (h : ∀ form ∈ forms, form.IsOrdered) :
    (sequence forms).IsOrdered := by
  induction forms with
  | nil => trivial
  | cons first rest ih =>
    obtain ⟨hfirst, hrest⟩ := List.forall_mem_cons.mp h
    exact ⟨hfirst, ih hrest⟩

theorem text_sequence (forms : List Form) : (sequence forms).text = forms.flatMap text := by
  induction forms with
  | nil => rfl
  | cons first rest ih =>
    show first.text ++ (sequence rest).text = _
    rw [ih, List.flatMap_cons]

/-! ## Section 2: The empty text -/

/-- A product has the empty word when both of its factors do. -/
theorem nil_mem_mul {l m : Language Char} : [] ∈ l * m ↔ [] ∈ l ∧ [] ∈ m := by
  rw [Language.mem_mul]
  constructor
  · rintro ⟨a, ha, b, hb, hnil⟩
    obtain ⟨rfl, rfl⟩ := List.append_eq_nil_iff.mp hnil
    exact ⟨ha, hb⟩
  · rintro ⟨hl, hm⟩
    exact ⟨[], hl, [], hm, rfl⟩

theorem nil_mem_pow {l : Language Char} (h : [] ∈ l) (n : Nat) : [] ∈ l ^ n := by
  induction n with
  | zero => exact Language.nil_mem_one
  | succ n ih =>
    rw [pow_succ]
    exact nil_mem_mul.mpr ⟨ih, h⟩

theorem nullable_iff (h : form.IsOrdered) : form.nullable = true ↔ [] ∈ form.language := by
  induction form with
  | empty => exact iff_of_true rfl Language.nil_mem_one
  | one accepted =>
    refine iff_of_false Bool.false_ne_true ?_
    rintro ⟨c, -, hnil⟩
    exact List.cons_ne_nil c [] hnil.symm
  | seq first second ihFirst ihSecond =>
    obtain ⟨hfirst, hsecond⟩ := h
    rw [nullable, Bool.and_eq_true, ihFirst hfirst, ihSecond hsecond]
    exact nil_mem_mul.symm
  | alt left right ihLeft ihRight =>
    obtain ⟨hleft, hright⟩ := h
    rw [nullable, Bool.or_eq_true, ihLeft hleft, ihRight hright]
    exact (Language.mem_add _ _ _).symm
  | rep body bounds ih =>
    obtain ⟨hbody, hbounds⟩ := h
    rw [nullable, Bool.or_eq_true, beq_iff_eq, ih hbody, mem_language_rep]
    constructor
    · rintro (hzero | hnil)
      -- no repetition at all, or the fewest that the ordered bounds admit
      · exact ⟨0, ⟨Nat.le_of_eq hzero, fun high _ => Nat.zero_le high⟩, Language.nil_mem_one⟩
      · exact ⟨bounds.min, ⟨Nat.le_refl _, hbounds⟩, nil_mem_pow hnil _⟩
    · rintro ⟨n, ⟨hmin, -⟩, hmem⟩
      cases n with
      | zero => exact .inl (Nat.le_zero.mp hmin)
      | succ n =>
        -- the last factor is empty as well
        rw [pow_succ] at hmem
        exact .inr (nil_mem_mul.mp hmem).2

/-! ## Section 3: The first character -/

theorem cons_mem_mul {l m : Language Char} :
    c :: w ∈ l * m ↔
      (∃ x y, c :: x ∈ l ∧ y ∈ m ∧ x ++ y = w) ∨ ([] ∈ l ∧ c :: w ∈ m) := by
  rw [Language.mem_mul]
  constructor
  · rintro ⟨a, ha, b, hb, heq⟩
    cases a with
    | nil =>
      rw [List.nil_append] at heq
      exact .inr ⟨ha, heq ▸ hb⟩
    | cons d x =>
      obtain ⟨rfl, hrest⟩ := List.cons.inj heq
      exact .inl ⟨x, b, ha, hb, hrest⟩
  · rintro (⟨x, y, hx, hy, rfl⟩ | ⟨hnil, hmem⟩)
    · exact ⟨c :: x, hx, y, hy, rfl⟩
    · exact ⟨[], hnil, c :: w, hmem, rfl⟩

/-- The first character of a power stands in one of its factors; the empty
    factors before it may come after it as well. -/
theorem cons_mem_pow_succ {l : Language Char} {n : Nat} :
    c :: w ∈ l ^ (n + 1) ↔ ∃ x y, c :: x ∈ l ∧ y ∈ l ^ n ∧ x ++ y = w := by
  constructor
  · intro h
    induction n with
    | zero =>
      rw [zero_add, pow_one] at h
      exact ⟨w, [], h, Language.nil_mem_one, List.append_nil w⟩
    | succ n ih =>
      rw [pow_succ'] at h
      rcases cons_mem_mul.mp h with hfirst | ⟨hnil, hrest⟩
      · exact hfirst
      · obtain ⟨x, y, hx, hy, heq⟩ := ih hrest
        -- the empty first factor is moved behind the one with the character
        refine ⟨x, y, hx, ?_, heq⟩
        rw [pow_succ']
        exact Language.mem_mul.mpr ⟨[], hnil, y, hy, rfl⟩
  · rintro hsplit
    rw [pow_succ']
    exact cons_mem_mul.mpr (.inl hsplit)

/-- One repetition less is admitted by the bounds after one repetition. -/
theorem admits_fewer {n : Nat} (h : bounds.max ≠ some 0) :
    (fewer bounds).Admits n ↔ bounds.Admits (n + 1) := by
  obtain ⟨low, upper⟩ := bounds
  cases upper with
  | none => simp [fewer, Bounds.Admits]
  | some high =>
    have hpos : 0 < high := Nat.pos_of_ne_zero fun hzero => h (congrArg some hzero)
    simp only [fewer, Bounds.Admits, Option.map_some, Option.some.injEq, forall_eq']
    omega

theorem ordered_fewer (h : bounds.Ordered) : (fewer bounds).Ordered := by
  intro high hhigh
  obtain ⟨top, htop, rfl⟩ := Option.map_eq_some_iff.mp hhigh
  exact Nat.sub_le_sub_right (h top htop) 1

theorem language_followedBy (first second : Form) :
    (followedBy first second).language = first.language * second.language := by
  cases first with
  | empty => exact (one_mul _).symm
  | _ => rfl

theorem isOrdered_followedBy (hfirst : first.IsOrdered) (hsecond : second.IsOrdered) :
    (followedBy first second).IsOrdered := by
  cases first with
  | empty => exact hsecond
  | _ => exact ⟨hfirst, hsecond⟩

theorem isOrdered_of_mem_remainders (h : form.IsOrdered) :
    ∀ rest ∈ remainders c form, rest.IsOrdered := by
  induction form with
  | empty => exact fun rest hrest => absurd hrest List.not_mem_nil
  | one accepted =>
    intro rest hrest
    rw [remainders] at hrest
    split at hrest
    · obtain rfl := List.mem_singleton.mp hrest
      trivial
    · exact absurd hrest List.not_mem_nil
  | seq first second ihFirst ihSecond =>
    obtain ⟨hfirst, hsecond⟩ := h
    -- what remains of the first part has the second one behind it
    have hmap : ∀ rest ∈ (remainders c first).map (followedBy · second), rest.IsOrdered := by
      intro rest hrest
      obtain ⟨part, hpart, rfl⟩ := List.mem_map.mp hrest
      exact isOrdered_followedBy (ihFirst hfirst part hpart) hsecond
    intro rest hrest
    rw [remainders] at hrest
    split at hrest
    · exact (List.mem_append.mp hrest).elim (hmap rest) (ihSecond hsecond rest)
    · exact hmap rest hrest
  | alt left right ihLeft ihRight =>
    intro rest hrest
    exact (List.mem_append.mp hrest).elim (ihLeft h.1 rest) (ihRight h.2 rest)
  | rep body bounds ih =>
    intro rest hrest
    rw [remainders] at hrest
    split at hrest
    · exact absurd hrest List.not_mem_nil
    · obtain ⟨part, hpart, rfl⟩ := List.mem_map.mp hrest
      exact isOrdered_followedBy (ih h.1 part hpart) ⟨h.1, ordered_fewer h.2⟩

/-- The words of the remainders followed by a form. -/
theorem exists_mem_map_followedBy {parts : List Form} {l : Language Char}
    (h : ∀ x, (∃ part ∈ parts, x ∈ part.language) ↔ c :: x ∈ l) :
    (∃ rest ∈ parts.map (followedBy · second), w ∈ rest.language) ↔
      ∃ x y, c :: x ∈ l ∧ y ∈ second.language ∧ x ++ y = w := by
  constructor
  · rintro ⟨rest, hrest, hw⟩
    obtain ⟨part, hpart, rfl⟩ := List.mem_map.mp hrest
    rw [language_followedBy, Language.mem_mul] at hw
    obtain ⟨x, hx, y, hy, heq⟩ := hw
    exact ⟨x, y, (h x).mp ⟨part, hpart, hx⟩, hy, heq⟩
  · rintro ⟨x, y, hx, hy, heq⟩
    obtain ⟨part, hpart, hmem⟩ := (h x).mpr hx
    refine ⟨followedBy part second, List.mem_map_of_mem hpart, ?_⟩
    rw [language_followedBy, Language.mem_mul]
    exact ⟨x, hmem, y, hy, heq⟩

/-- A form describes a text with a first character exactly when one of its
    remainders describes the rest. -/
theorem exists_mem_remainders (h : form.IsOrdered) :
    (∃ rest ∈ remainders c form, w ∈ rest.language) ↔ c :: w ∈ form.language := by
  induction form generalizing w with
  | empty => simp [remainders, language, Language.mem_one]
  | one accepted =>
    show _ ↔ ∃ d, accepted.accepts d = true ∧ c :: w = [d]
    by_cases haccepts : accepted.accepts c = true
    · simp [remainders, haccepts, language, Language.mem_one]
    · simp [remainders, haccepts]
  | seq first second ihFirst ihSecond =>
    obtain ⟨hfirst, hsecond⟩ := h
    have hmap : (∃ rest ∈ (remainders c first).map (followedBy · second), w ∈ rest.language) ↔
        ∃ x y, c :: x ∈ first.language ∧ y ∈ second.language ∧ x ++ y = w :=
      exists_mem_map_followedBy fun _ => ihFirst hfirst
    rw [language, cons_mem_mul, ← nullable_iff hfirst, ← ihSecond hsecond, ← hmap, remainders]
    cases first.nullable with
    | true => simp [or_and_right, exists_or]
    | false => simp
  | alt left right ihLeft ihRight =>
    rw [language, Language.mem_add, ← ihLeft h.1, ← ihRight h.2, remainders]
    simp [or_and_right, exists_or]
  | rep body bounds ih =>
    rw [remainders, mem_language_rep]
    split
    next hnone =>
      -- nothing may be repeated, so only the empty text is left
      refine iff_of_false (by simp) ?_
      rintro ⟨n, ⟨-, hmax⟩, hmem⟩
      obtain rfl := Nat.le_zero.mp (hmax 0 hnone)
      exact List.cons_ne_nil c w hmem
    next hsome =>
      rw [exists_mem_map_followedBy fun x => ih h.1 (w := x)]
      constructor
      · rintro ⟨x, y, hx, ⟨n, hn, hy⟩, heq⟩
        exact ⟨n + 1, (admits_fewer hsome).mp hn, cons_mem_pow_succ.mpr ⟨x, y, hx, hy, heq⟩⟩
      · rintro ⟨n, hn, hmem⟩
        cases n with
        | zero => exact absurd hmem (List.cons_ne_nil c w)
        | succ n =>
          obtain ⟨x, y, hx, hy, heq⟩ := cons_mem_pow_succ.mp hmem
          exact ⟨x, y, hx, ⟨n, (admits_fewer hsome).mpr hn, hy⟩, heq⟩

/-! ## Section 4: Whole texts -/

theorem exists_mem_remaindersAfter {forms : List Form} {text : Text}
    (h : ∀ form ∈ forms, form.IsOrdered) :
    ((remaindersAfter forms text).any nullable = true) ↔
      ∃ form ∈ forms, text ∈ form.language := by
  induction text generalizing forms with
  | nil =>
    rw [remaindersAfter, List.foldl_nil, List.any_eq_true]
    exact exists_congr fun form => and_congr_right fun hform => nullable_iff (h form hform)
  | cons c rest ih =>
    have hordered : ∀ form ∈ (forms.flatMap (remainders c)).eraseDups, form.IsOrdered := by
      intro part hpart
      obtain ⟨form, hform, hmem⟩ := List.mem_flatMap.mp (List.mem_eraseDups.mp hpart)
      exact isOrdered_of_mem_remainders (h form hform) part hmem
    show ((remaindersAfter (forms.flatMap (remainders c)).eraseDups rest).any nullable = true) ↔ _
    -- what the rest needs of the remainders, the whole text needs of the forms
    rw [ih hordered]
    simp only [List.mem_eraseDups, List.mem_flatMap]
    constructor
    · rintro ⟨part, ⟨form, hform, hpart⟩, hmem⟩
      exact ⟨form, hform, (exists_mem_remainders (h form hform)).mp ⟨part, hpart, hmem⟩⟩
    · rintro ⟨form, hform, hmem⟩
      obtain ⟨part, hpart, hrest⟩ := (exists_mem_remainders (h form hform)).mpr hmem
      exact ⟨part, ⟨form, hform, hpart⟩, hrest⟩

/-- A form accepts the texts that it describes. -/
theorem accepts_iff {text : Text} (h : form.IsOrdered) :
    form.accepts text = true ↔ text ∈ form.language := by
  have hone : ∀ f ∈ [form], f.IsOrdered := by
    intro f hf
    obtain rfl := List.mem_singleton.mp hf
    exact h
  rw [accepts, exists_mem_remaindersAfter hone]
  simp

end Form

end RegexInsight
