import Mathlib
import RegexInsight.Inference.Shape
import RegexInsight.Proofs.Form.FullMatch
import RegexInsight.Proofs.Text.Run

/-! # Forms of one shape

    Texts of one shape have runs with the same keys in the same places, so
    every run of every text stands in the column of its place.  The form of
    a column accepts each run in it, and the written form of all columns
    fully matches each of the texts. -/

namespace RegexInsight

/-! ## Section 1: Columns -/

/-- The runs of some texts of one shape. -/
structure IsGroup (shape : List RunKey) (group : List (List Run)) : Prop where
  nonempty : group ≠ []
  keys : ∀ row ∈ group, row.map Run.key = shape
  uniform : ∀ row ∈ group, ∀ r ∈ row, r.IsUniform

/-- The runs of one place. -/
structure IsColumn (key : RunKey) (column : List Run) : Prop where
  nonempty : column ≠ []
  keys : ∀ r ∈ column, r.key = key
  uniform : ∀ r ∈ column, r.IsUniform

theorem isGroup_split {texts : List Text} {shape : List RunKey} (hne : texts ≠ [])
    (h : ∀ text ∈ texts, shapeOf text = shape) : IsGroup shape (texts.map Run.split) where
  nonempty := fun hnil => hne (List.map_eq_nil_iff.mp hnil)
  keys := by
    intro row hrow
    obtain ⟨text, htext, rfl⟩ := List.mem_map.mp hrow
    exact h text htext
  uniform := by
    intro row hrow
    obtain ⟨text, -, rfl⟩ := List.mem_map.mp hrow
    exact Run.isUniform_of_mem_split

theorem mapM_head? {rows : List (List Run)} (h : ∀ row ∈ rows, row ≠ []) :
    rows.mapM List.head? = some (rows.filterMap List.head?) := by
  induction rows with
  | nil => rfl
  | cons row rest ih =>
    obtain ⟨hrow, hrest⟩ := List.forall_mem_cons.mp h
    obtain ⟨r, tail, rfl⟩ := List.exists_cons_of_ne_nil hrow
    simp [List.mapM_cons, ih hrest]

/-- The first column holds the first runs, the others those behind them. -/
theorem positions_of_forall_ne_nil {group : List (List Run)} (hne : group ≠ [])
    (h : ∀ row ∈ group, row ≠ []) :
    positions group = group.filterMap List.head? :: positions (group.map List.tail) := by
  obtain ⟨first, others, rfl⟩ := List.exists_cons_of_ne_nil hne
  obtain ⟨hfirst, hothers⟩ := List.forall_mem_cons.mp h
  obtain ⟨r, rest, rfl⟩ := List.exists_cons_of_ne_nil hfirst
  simp [positions, positionsFrom, mapM_head? hothers]

namespace IsGroup

variable {shape : List RunKey} {key : RunKey} {group : List (List Run)} {row : List Run}

theorem ne_nil_of_mem (h : IsGroup (key :: shape) group) : ∀ row ∈ group, row ≠ [] := by
  rintro row hrow rfl
  exact List.cons_ne_nil key shape (h.keys [] hrow).symm

theorem tails (h : IsGroup (key :: shape) group) : IsGroup shape (group.map List.tail) where
  nonempty := fun hnil => h.nonempty (List.map_eq_nil_iff.mp hnil)
  keys := by
    intro tail htail
    obtain ⟨row, hrow, rfl⟩ := List.mem_map.mp htail
    rw [List.map_tail, h.keys row hrow]
    rfl
  uniform := by
    intro tail htail r hr
    obtain ⟨row, hrow, rfl⟩ := List.mem_map.mp htail
    exact h.uniform row hrow r (List.mem_of_mem_tail hr)

theorem heads (h : IsGroup (key :: shape) group) : IsColumn key (group.filterMap List.head?) := by
  have hhead : ∀ r ∈ group.filterMap List.head?, ∃ tail, r :: tail ∈ group := by
    intro r hr
    obtain ⟨row, hrow, hfirst⟩ := List.mem_filterMap.mp hr
    obtain ⟨tail, rfl⟩ := List.head?_eq_some_iff.mp hfirst
    exact ⟨tail, hrow⟩
  refine ⟨?_, fun r hr => ?_, fun r hr => ?_⟩
  · obtain ⟨row, hrow⟩ := List.exists_mem_of_ne_nil group h.nonempty
    obtain ⟨r, tail, rfl⟩ := List.exists_cons_of_ne_nil (h.ne_nil_of_mem row hrow)
    exact List.ne_nil_of_mem (List.mem_filterMap.mpr ⟨_, hrow, rfl⟩)
  · obtain ⟨tail, hrow⟩ := hhead r hr
    exact (List.cons.inj (h.keys _ hrow)).1
  · obtain ⟨tail, hrow⟩ := hhead r hr
    exact h.uniform _ hrow r List.mem_cons_self

theorem positions_nil (h : IsGroup [] group) : positions group = [] := by
  obtain ⟨first, others, rfl⟩ := List.exists_cons_of_ne_nil h.nonempty
  have hfirst : first = [] := List.map_eq_nil_iff.mp (h.keys first List.mem_cons_self)
  rw [hfirst]
  rfl

/-- There is a column for every key. -/
theorem forall₂_columns (h : IsGroup shape group) :
    List.Forall₂ IsColumn shape (positions group) := by
  induction shape generalizing group with
  | nil =>
    rw [h.positions_nil]
    exact .nil
  | cons key shape ih =>
    rw [positions_of_forall_ne_nil h.nonempty h.ne_nil_of_mem]
    exact .cons h.heads (ih h.tails)

/-- The runs of every text stand in the columns. -/
theorem forall₂_row (h : IsGroup shape group) (hrow : row ∈ group) :
    List.Forall₂ (fun r column => r ∈ column) row (positions group) := by
  induction shape generalizing group row with
  | nil =>
    have hnil : row = [] := List.map_eq_nil_iff.mp (h.keys row hrow)
    rw [hnil, h.positions_nil]
    exact .nil
  | cons key shape ih =>
    rw [positions_of_forall_ne_nil h.nonempty h.ne_nil_of_mem]
    obtain ⟨r, tail, rfl⟩ := List.exists_cons_of_ne_nil (h.ne_nil_of_mem row hrow)
    have hfirst : r ∈ group.filterMap List.head? := List.mem_filterMap.mpr ⟨_, hrow, rfl⟩
    exact .cons hfirst (ih h.tails (List.mem_map_of_mem hrow))

theorem exists_isColumn (h : IsGroup shape group) {column : List Run}
    (hcolumn : column ∈ positions group) : ∃ key, IsColumn key column := by
  obtain ⟨i, hi, rfl⟩ := List.getElem_of_mem hcolumn
  exact ⟨_, h.forall₂_columns.get (h.forall₂_columns.length_eq ▸ hi) hi⟩

end IsGroup

/-! ## Section 2: Texts and lengths -/

theorem agree_iff {texts : List Text} :
    agree texts = true ↔ ∀ t ∈ texts, ∀ t' ∈ texts, t = t' := by
  cases texts with
  | nil => simp [agree]
  | cons first rest =>
    simp only [agree, List.all_eq_true, beq_iff_eq]
    constructor
    · intro h
      have hfirst : ∀ t ∈ first :: rest, t = first := List.forall_mem_cons.mpr ⟨rfl, h⟩
      exact fun t ht t' ht' => (hfirst t ht).trans (hfirst t' ht').symm
    · exact fun h t ht => h t (List.mem_cons_of_mem _ ht) first List.mem_cons_self

theorem leastLength_eq (lengths : List Nat) : leastLength lengths = lengths.min?.getD 0 := by
  cases lengths with
  | nil => rfl
  | cons n rest => simp [leastLength, List.min?]

theorem greatestLength_eq (lengths : List Nat) :
    greatestLength lengths = lengths.max?.getD 0 := by
  cases lengths with
  | nil => rfl
  | cons n rest => simp [greatestLength, List.max?]

theorem leastLength_mem {lengths : List Nat} (h : lengths ≠ []) :
    leastLength lengths ∈ lengths := by
  obtain ⟨n, rest, rfl⟩ := List.exists_cons_of_ne_nil h
  rw [leastLength_eq]
  exact List.min?_mem rfl

theorem greatestLength_mem {lengths : List Nat} (h : lengths ≠ []) :
    greatestLength lengths ∈ lengths := by
  obtain ⟨n, rest, rfl⟩ := List.exists_cons_of_ne_nil h
  rw [greatestLength_eq]
  exact List.max?_mem rfl

theorem leastLength_le {lengths : List Nat} {n : Nat} (h : n ∈ lengths) :
    leastLength lengths ≤ n := by
  rw [leastLength_eq]
  obtain ⟨least, hleast⟩ := Option.isSome_iff_exists.mp (List.isSome_min?_of_mem h)
  rw [hleast]
  exact (List.min?_eq_some_iff.mp hleast).2 n h

theorem le_greatestLength {lengths : List Nat} {n : Nat} (h : n ∈ lengths) :
    n ≤ greatestLength lengths := by
  rw [greatestLength_eq]
  obtain ⟨greatest, hgreatest⟩ := Option.isSome_iff_exists.mp (List.isSome_max?_of_mem h)
  rw [hgreatest]
  exact (List.max?_eq_some_iff.mp hgreatest).2 n h

/-! ## Section 3: The class of a column -/

section Class

variable {c : Char} {text : Text}

theorem inStrides_lower (h : 'a' ≤ c ∧ c ≤ 'z') :
    Unicode.inStrides Unicode.lowerStrides c = true := by
  have hstride : (⟨⟨0x61, 0x7A⟩, 1⟩ : Unicode.Stride).contains c.toNat = true := by
    simp only [Unicode.Stride.contains, Interval.contains, Bool.and_eq_true, decide_eq_true_eq,
      Nat.mod_one, beq_self_eq_true, and_true]
    exact h
  exact List.any_eq_true.mpr ⟨_, List.mem_cons_self, hstride⟩

theorem inStrides_upper (h : 'A' ≤ c ∧ c ≤ 'Z') :
    Unicode.inStrides Unicode.upperStrides c = true := by
  have hstride : (⟨⟨0x41, 0x5A⟩, 1⟩ : Unicode.Stride).contains c.toNat = true := by
    simp only [Unicode.Stride.contains, Interval.contains, Bool.and_eq_true, decide_eq_true_eq,
      Nat.mod_one, beq_self_eq_true, and_true]
    exact h
  exact List.any_eq_true.mpr ⟨_, List.mem_cons_self, hstride⟩

/-- An ASCII letter in a lower-case text is a lower-case letter. -/
theorem lower_of_isLowerText (h : isLowerText text = true) (hc : c ∈ text)
    (hletter : CharKind.ofChar c = .letter) : 'a' ≤ c ∧ c ≤ 'z' := by
  simp only [isLowerText, Bool.and_eq_true, Bool.not_eq_true', List.any_eq_false] at h
  obtain ⟨⟨-, hupper⟩, -⟩ := h
  rcases CharKind.ofChar_eq_letter_iff.mp hletter with hlower | hbig
  · exact hlower
  · exact absurd (inStrides_upper hbig) (hupper c hc)

theorem upper_of_isUpperText (h : isUpperText text = true) (hc : c ∈ text)
    (hletter : CharKind.ofChar c = .letter) : 'A' ≤ c ∧ c ≤ 'Z' := by
  simp only [isUpperText, Bool.and_eq_true, Bool.not_eq_true', List.any_eq_false] at h
  obtain ⟨⟨-, hlower⟩, -⟩ := h
  rcases CharKind.ofChar_eq_letter_iff.mp hletter with hsmall | hupper
  · exact absurd (inStrides_lower hsmall) (hlower c hc)
  · exact hupper

theorem isDecimal_of_ofChar (h : CharKind.ofChar c = .digit) : isDecimal c = true :=
  isDecimal_of_isDigit (Char.isDigit_iff_toNat.mpr (CharKind.ofChar_eq_digit_iff.mp h))

theorem accepts_anything (c : Char) : FormClass.anything.accepts c = true := by
  show (isSpace c || (!isSpace c || false)) = true
  cases isSpace c <;> rfl

/-- The class for texts of a kind accepts every character in them. -/
theorem accepts_classFor {kind : CharKind} {texts : List Text}
    (h : ∀ text ∈ texts, ∀ c ∈ text, CharKind.ofChar c = kind) (htext : text ∈ texts)
    (hc : c ∈ text) : (classFor kind texts).accepts c = true := by
  have hkind := h text htext c hc
  have hblank : ∀ {p : Char → Bool}, (texts.all fun t => t.all p) = true → p c = true :=
    fun hall => List.all_eq_true.mp (List.all_eq_true.mp hall text htext) c hc
  -- the tests for blanks are the same for both remaining kinds
  have hother : (if texts.all fun t => t.all isSpace then FormClass.shorthand .space
      else if texts.all fun t => t.all fun c => !isSpace c then .shorthand .notSpace
      else .anything).accepts c = true := by
    split
    next hall => exact hblank hall
    split
    next hall => exact hblank hall
    next => exact accepts_anything c
  cases kind with
  | digit => exact isDecimal_of_ofChar hkind
  | letter =>
    unfold classFor
    dsimp only
    split
    next hall =>
      have hlower := lower_of_isLowerText (List.all_eq_true.mp hall text htext) hc hkind
      simpa [FormClass.lower, FormClass.accepts, BracketItem.accepts] using hlower
    split
    next hall =>
      have hupper := upper_of_isUpperText (List.all_eq_true.mp hall text htext) hc hkind
      simpa [FormClass.upper, FormClass.accepts, BracketItem.accepts] using hupper
    next =>
      have hletter := CharKind.ofChar_eq_letter_iff.mp hkind
      simpa [FormClass.letter, FormClass.accepts, BracketItem.accepts] using hletter
  | punct => exact hother
  | other => exact hother

theorem isSimple_classFor (kind : CharKind) (texts : List Text) :
    (classFor kind texts).IsSimple := by
  have hbracket : ∀ entry ∈ FormClass.brackets, entry.2.IsSimple := fun _ => .bracket
  simp only [FormClass.brackets, List.forall_mem_cons] at hbracket
  obtain ⟨hlower, hupper, hletter, hanything, -⟩ := hbracket
  -- marks are classed like all other characters
  have hother : (classFor .other texts).IsSimple := by
    unfold classFor
    dsimp only
    split
    next => exact .shorthand .space
    split
    next => exact .shorthand .notSpace
    next => exact hanything
  cases kind with
  | digit => exact .shorthand .digit
  | letter =>
    unfold classFor
    dsimp only
    split
    next => exact hlower
    split
    next => exact hupper
    next => exact hletter
  | punct => exact hother
  | other => exact hother

end Class

/-! ## Section 4: The pieces of a column -/

/-- The lengths of the runs of a column. -/
def lengthsOf (column : List Run) : List Nat :=
  (column.map Run.text).map List.length

/-- What is written for a column: the common text, or a class with the
    range of lengths. -/
def piecesOf (column : List Run) : List Piece :=
  match column with
  | [] => []
  | r :: _ =>
    if agree (column.map Run.text) then r.text.map Piece.char
    else [⟨classFor r.kind (column.map Run.text),
      ⟨leastLength (lengthsOf column), some (greatestLength (lengthsOf column))⟩⟩]

/-- The three ways to write a counted class are one form. -/
theorem form_mk (a : FormClass) (low high : Nat) :
    Piece.form ⟨a, ⟨low, some high⟩⟩ =
      if low = high && low = 1 then .one a
      else if low = high then .exactly low (.one a)
      else .between low high (.one a) := by
  simp only [Piece.form, Bounds.once, Bounds.mk.injEq, Option.some.injEq]
  by_cases hsame : low = high
  · subst hsame
    by_cases hone : low = 1
    · simp [hone]
    · simp [hone, Form.exactly]
  · have hnot : ¬ (low = 1 ∧ high = 1) := by omega
    simp [hsame, hnot, Form.between]

/-- The form of a column is that of its pieces. -/
theorem formOfPosition_cases (column : List Run) :
    formOfPosition column = .sequence ((piecesOf column).map Piece.form) ∨
      ∃ p, piecesOf column = [p] ∧ formOfPosition column = p.form := by
  cases column with
  | nil => exact .inl rfl
  | cons r rest =>
    unfold formOfPosition piecesOf
    dsimp only
    split
    next =>
      left
      rw [Form.literal, List.map_map]
      rfl
    next =>
      refine .inr ⟨_, rfl, ?_⟩
      rw [form_mk]
      simp only [Bool.and_eq_true, decide_eq_true_eq]
      rfl

theorem language_formOfPosition (column : List Run) :
    (formOfPosition column).language = ((piecesOf column).map Piece.language).prod := by
  rcases formOfPosition_cases column with hall | ⟨p, hpieces, hform⟩
  · rw [hall, Form.language_sequence, List.map_map]
    congr 1
    exact List.map_congr_left fun p _ => p.language_form
  · rw [hpieces, hform, List.map_singleton, List.prod_singleton, p.language_form]

section Column

variable {key : RunKey} {column : List Run} {r : Run} {p : Piece}

theorem mem_lengthsOf (hr : r ∈ column) : r.text.length ∈ lengthsOf column :=
  List.mem_map_of_mem (List.mem_map_of_mem hr)

theorem exists_length_eq {n : Nat} (hn : n ∈ lengthsOf column) :
    ∃ r ∈ column, r.text.length = n := by
  simpa [lengthsOf] using hn

namespace IsColumn

/-- A column has a piece for each character of the common text, or one piece
    with the range of lengths. -/
theorem piecesOf_cases (h : IsColumn key column) :
    (∃ text, piecesOf column = text.map Piece.char ∧ ∀ r ∈ column, r.text = text) ∨
      piecesOf column = [⟨classFor key.kind (column.map Run.text),
        ⟨leastLength (lengthsOf column), some (greatestLength (lengthsOf column))⟩⟩] := by
  cases column with
  | nil => exact absurd rfl h.nonempty
  | cons first rest =>
    unfold piecesOf
    dsimp only
    split
    next hagree =>
      refine .inl ⟨first.text, rfl, List.forall_mem_cons.mpr ⟨rfl, fun r hr => ?_⟩⟩
      exact eq_of_beq (List.all_eq_true.mp hagree r.text (List.mem_map_of_mem hr))
    next =>
      rw [← h.keys first List.mem_cons_self]
      exact .inr rfl

theorem lengthsOf_ne_nil (h : IsColumn key column) : lengthsOf column ≠ [] := by
  obtain ⟨r, hr⟩ := List.exists_mem_of_ne_nil column h.nonempty
  exact List.ne_nil_of_mem (mem_lengthsOf hr)

theorem leastLength_pos (h : IsColumn key column) : 0 < leastLength (lengthsOf column) := by
  obtain ⟨r, hr, hleast⟩ := exists_length_eq (leastLength_mem h.lengthsOf_ne_nil)
  rw [← hleast]
  exact List.length_pos_of_ne_nil (h.uniform r hr).nonempty

theorem isSimple_of_mem (h : IsColumn key column) (hp : p ∈ piecesOf column) : p.IsSimple := by
  rcases h.piecesOf_cases with ⟨text, hpieces, -⟩ | hpieces
  · rw [hpieces] at hp
    obtain ⟨c, -, rfl⟩ := List.mem_map.mp hp
    exact ⟨.char c, 1, 1, Nat.one_pos, Nat.le_refl 1, rfl⟩
  · rw [hpieces] at hp
    obtain rfl := List.mem_singleton.mp hp
    exact ⟨isSimple_classFor _ _, _, _, h.leastLength_pos,
      le_greatestLength (leastLength_mem h.lengthsOf_ne_nil), rfl⟩

theorem text_formOfPosition (h : IsColumn key column) :
    (formOfPosition column).text = (piecesOf column).flatMap Piece.text := by
  rcases formOfPosition_cases column with hall | ⟨p, hpieces, hform⟩
  · rw [hall, Form.text_sequence, List.flatMap_map]
    exact List.flatMap_congr fun p hp => (h.isSimple_of_mem hp).text_form
  · rw [hpieces, hform, List.flatMap_singleton]
    exact (h.isSimple_of_mem (hpieces ▸ List.mem_singleton_self p)).text_form

theorem isOrdered_formOfPosition (h : IsColumn key column) :
    (formOfPosition column).IsOrdered := by
  rcases formOfPosition_cases column with hall | ⟨p, hpieces, hform⟩
  · rw [hall]
    refine Form.isOrdered_sequence fun form hform => ?_
    obtain ⟨p, hp, rfl⟩ := List.mem_map.mp hform
    exact (h.isSimple_of_mem hp).isOrdered_form
  · rw [hform]
    exact (h.isSimple_of_mem (hpieces ▸ List.mem_singleton_self p)).isOrdered_form

/-- The pieces of a column describe every run in it. -/
theorem mem_language (h : IsColumn key column) (hr : r ∈ column) :
    r.text ∈ ((piecesOf column).map Piece.language).prod := by
  rcases h.piecesOf_cases with ⟨text, hpieces, hsame⟩ | hpieces
  · rw [hpieces, hsame r hr]
    exact Piece.mem_prod_chars.mpr rfl
  · rw [hpieces, List.map_singleton, List.prod_singleton]
    -- all characters of a column are of one kind
    have hkinds : ∀ text ∈ column.map Run.text, ∀ c ∈ text, CharKind.ofChar c = key.kind := by
      intro text htext c hc
      obtain ⟨s, hs, rfl⟩ := List.mem_map.mp htext
      rw [(h.uniform s hs).kinds c hc, ← h.keys s hs]
      rfl
    refine ⟨fun c hc => accepts_classFor hkinds (List.mem_map_of_mem hr) hc,
      leastLength_le (mem_lengthsOf hr), fun high hhigh => ?_⟩
    obtain rfl := Option.some.inj hhigh
    exact le_greatestLength (mem_lengthsOf hr)

end IsColumn

end Column

/-! ## Section 5: The form of a group -/

/-- What is written for the runs of some texts. -/
def groupPieces (group : List (List Run)) : List Piece :=
  (positions group).flatMap piecesOf

section Group

variable {shape : List RunKey} {group : List (List Run)}

theorem language_ofRuns (group : List (List Run)) :
    (ShapeForm.ofRuns group).form.language = ((groupPieces group).map Piece.language).prod := by
  show (Form.sequence ((positions group).map formOfPosition)).language = _
  rw [Form.language_sequence, groupPieces, List.map_map]
  induction positions group with
  | nil => rfl
  | cons column rest ih =>
    rw [List.map_cons, List.prod_cons, ih, List.flatMap_cons, List.map_append, List.prod_append]
    exact congrArg (· * _) (language_formOfPosition column)

namespace IsGroup

theorem text_ofRuns (h : IsGroup shape group) :
    (ShapeForm.ofRuns group).form.text = (groupPieces group).flatMap Piece.text := by
  show (Form.sequence ((positions group).map formOfPosition)).text = _
  rw [Form.text_sequence, groupPieces, List.flatMap_map, List.flatMap_assoc]
  refine List.flatMap_congr fun column hcolumn => ?_
  obtain ⟨key, hkey⟩ := h.exists_isColumn hcolumn
  exact hkey.text_formOfPosition

theorem isOrdered_ofRuns (h : IsGroup shape group) :
    (ShapeForm.ofRuns group).form.IsOrdered := by
  refine Form.isOrdered_sequence fun form hform => ?_
  obtain ⟨column, hcolumn, rfl⟩ := List.mem_map.mp hform
  obtain ⟨key, hkey⟩ := h.exists_isColumn hcolumn
  exact hkey.isOrdered_formOfPosition

theorem isSimple_of_mem (h : IsGroup shape group) : ∀ p ∈ groupPieces group, p.IsSimple := by
  intro p hp
  obtain ⟨column, hcolumn, hmem⟩ := List.mem_flatMap.mp hp
  obtain ⟨key, hkey⟩ := h.exists_isColumn hcolumn
  exact hkey.isSimple_of_mem hmem

/-- The written form of a group matches in full exactly what its form
    accepts. -/
theorem fullMatch_iff_accepts (h : IsGroup shape group) {text : Text} :
    FullMatch (ShapeForm.ofRuns group).form.text text ↔
      (ShapeForm.ofRuns group).form.accepts text = true := by
  rw [Form.accepts_iff h.isOrdered_ofRuns, language_ofRuns, h.text_ofRuns,
    Piece.fullMatch_texts_iff h.isSimple_of_mem]

/-- The form of a group describes each of its texts. -/
theorem mem_language (h : IsGroup shape group) {row : List Run} (hrow : row ∈ group) :
    (row.map Run.text).flatten ∈ (ShapeForm.ofRuns group).form.language := by
  have hcolumns : ∀ column ∈ positions group, ∃ key, IsColumn key column :=
    fun column hcolumn => h.exists_isColumn hcolumn
  have hstand := h.forall₂_row hrow
  rw [language_ofRuns, groupPieces]
  generalize positions group = columns at hcolumns hstand
  clear hrow
  induction hstand with
  | nil => exact Language.nil_mem_one
  | @cons r column row columns hr _ ih =>
    obtain ⟨⟨key, hkey⟩, hrest⟩ := List.forall_mem_cons.mp hcolumns
    rw [List.map_cons, List.flatten_cons, List.flatMap_cons, List.map_append, List.prod_append,
      Language.mem_mul]
    exact ⟨r.text, hkey.mem_language hr, _, ih hrest, rfl⟩

end IsGroup

end Group

/-- The pattern for texts of one shape matches every one of them in full. -/
theorem ShapeForm.fullMatch_of_mem {texts : List Text} {shape : List RunKey}
    (h : ∀ text ∈ texts, shapeOf text = shape) {text : Text} (htext : text ∈ texts) :
    FullMatch (ShapeForm.ofRuns (texts.map Run.split)).form.text text ∧
      (ShapeForm.ofRuns (texts.map Run.split)).form.accepts text = true := by
  have hgroup := isGroup_split (List.ne_nil_of_mem htext) h
  have hmem := hgroup.mem_language (List.mem_map_of_mem htext)
  rw [Run.flatten_split] at hmem
  have haccepts := (Form.accepts_iff hgroup.isOrdered_ofRuns).mpr hmem
  exact ⟨hgroup.fullMatch_iff_accepts.mpr haccepts, haccepts⟩

/-- Letters of both cases, digits of two lengths and a mark that needs a
    backslash. -/
theorem ShapeForm.fullMatch_of_two_codes :
    (∀ text ∈ [['a', '1', '.'], ['B', '2', '2', '.']],
      shapeOf text = [⟨.letter, []⟩, ⟨.digit, []⟩, ⟨.punct, ['.']⟩]) ∧
      (ShapeForm.ofRuns ([['a', '1', '.'], ['B', '2', '2', '.']].map Run.split)).form.text =
        "[a-zA-Z]\\d\x7b1,2\x7d\\.".toList ∧
      FullMatch (ShapeForm.ofRuns ([['a', '1', '.'], ['B', '2', '2', '.']].map Run.split)).form.text
        ['B', '2', '2', '.'] := by
  have hshape : ∀ text ∈ [['a', '1', '.'], ['B', '2', '2', '.']],
      shapeOf text = [⟨.letter, []⟩, ⟨.digit, []⟩, ⟨.punct, ['.']⟩] := by decide
  exact ⟨hshape, by decide +kernel, (ShapeForm.fullMatch_of_mem hshape (by decide)).1⟩

end RegexInsight
