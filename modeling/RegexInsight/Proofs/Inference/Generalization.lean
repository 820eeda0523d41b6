import Mathlib
import RegexInsight.Proofs.Inference.Recovery

/-! # What a shape generalizes to

    A pattern made for texts of one shape accepts more than these texts.  On
    ASCII texts without blanks it accepts exactly the texts that have the
    shape and, run by run, resemble the texts that it was made for.

    A matched text falls into words, one for each column.  Why are these words
    the runs of the text, however long they are?  A word is of the kind of its
    column, and neighbouring columns are of different kinds or hold single
    marks, so no word can be joined to the next one; and runs that do not join
    are the only maximal ones. -/

namespace RegexInsight

/-! ## Section 1: Case -/

/-- All characters are lower-case ASCII letters. -/
def IsLowerAscii (text : Text) : Prop :=
  ∀ c ∈ text, 'a' ≤ c ∧ c ≤ 'z'

/-- All characters are upper-case ASCII letters. -/
def IsUpperAscii (text : Text) : Prop :=
  ∀ c ∈ text, 'A' ≤ c ∧ c ≤ 'Z'

section Case

variable {c : Char} {text : Text}

theorem not_inStrides_of_lower (h : 'a' ≤ c ∧ c ≤ 'z') :
    Unicode.inStrides Unicode.upperStrides c = false ∧
      Unicode.inStrides Unicode.titleStrides c = false := by
  have hall : ∀ n < 0x7B, 0x61 ≤ n →
      (Unicode.upperStrides.any fun stride => stride.contains n) = false ∧
        (Unicode.titleStrides.any fun stride => stride.contains n) = false := by
    decide +kernel
  exact hall c.toNat (Nat.lt_succ_of_le h.2) h.1

theorem not_inStrides_of_upper (h : 'A' ≤ c ∧ c ≤ 'Z') :
    Unicode.inStrides Unicode.lowerStrides c = false ∧
      Unicode.inStrides Unicode.titleStrides c = false := by
  have hall : ∀ n < 0x5B, 0x41 ≤ n →
      (Unicode.lowerStrides.any fun stride => stride.contains n) = false ∧
        (Unicode.titleStrides.any fun stride => stride.contains n) = false := by
    decide +kernel
  exact hall c.toNat (Nat.lt_succ_of_le h.2) h.1

/-- A text has a case if all of it is in that case. -/
theorem hasCase_of_forall {own other title : Char → Bool} (hne : text ≠ [])
    (h : ∀ c ∈ text, own c = true ∧ other c = false ∧ title c = false) :
    (text.any own && !text.any other && !text.any title) = true := by
  obtain ⟨c, hc⟩ := List.exists_mem_of_ne_nil text hne
  have hown : text.any own = true := List.any_eq_true.mpr ⟨c, hc, (h c hc).1⟩
  have hother : text.any other = false := by
    simpa using fun d hd => (h d hd).2.1
  have htitle : text.any title = false := by
    simpa using fun d hd => (h d hd).2.2
  rw [hown, hother, htitle]
  rfl

/-- Among ASCII letters a text is in lower case if all of it is. -/
theorem isLowerText_iff (hne : text ≠ []) (hletters : ∀ c ∈ text, CharKind.ofChar c = .letter) :
    isLowerText text = true ↔ IsLowerAscii text := by
  constructor
  · intro h c hc
    exact lower_of_isLowerText h hc (hletters c hc)
  · intro h
    apply hasCase_of_forall hne
    intro c hc
    exact ⟨inStrides_lower (h c hc), not_inStrides_of_lower (h c hc)⟩

theorem isUpperText_iff (hne : text ≠ []) (hletters : ∀ c ∈ text, CharKind.ofChar c = .letter) :
    isUpperText text = true ↔ IsUpperAscii text := by
  constructor
  · intro h c hc
    exact upper_of_isUpperText h hc (hletters c hc)
  · intro h
    apply hasCase_of_forall hne
    intro c hc
    exact ⟨inStrides_upper (h c hc), not_inStrides_of_upper (h c hc)⟩

namespace FormClass

theorem accepts_lower_iff : lower.accepts c = true ↔ 'a' ≤ c ∧ c ≤ 'z' := by
  simp [lower, accepts, BracketItem.accepts]

theorem accepts_upper_iff : upper.accepts c = true ↔ 'A' ≤ c ∧ c ≤ 'Z' := by
  simp [upper, accepts, BracketItem.accepts]

theorem accepts_letter_iff : letter.accepts c = true ↔ CharKind.ofChar c = .letter := by
  rw [CharKind.ofChar_eq_letter_iff]
  simp [letter, accepts, BracketItem.accepts]

end FormClass

theorem classFor_letter (texts : List Text) :
    classFor .letter texts =
      if texts.all isLowerText then .lower else if texts.all isUpperText then .upper else .letter :=
  rfl

/-- An ASCII character that counts as a decimal digit is one of the ten. -/
theorem ofChar_of_isDecimal (hascii : c.toNat < 128) (h : isDecimal c = true) :
    CharKind.ofChar c = .digit := by
  have hall : ∀ n < 128, Unicode.decimalDigits.contains n = true → 0x30 ≤ n ∧ n ≤ 0x39 := by
    decide +kernel
  exact CharKind.ofChar_eq_digit_iff.mpr (hall c.toNat hascii h)

end Case

/-! ## Section 2: Runs like those of a column -/

/-- All runs of a column have the same text. -/
def Coincide (column : List Run) : Prop :=
  ∀ m ∈ column, ∀ m' ∈ column, m.text = m'.text

/-- A run is as long as those of a column, and in their case if they have one
    case. -/
structure Run.IsAmong (r : Run) (column : List Run) : Prop where
  shortest : ∃ m ∈ column, m.text.length ≤ r.text.length
  longest : ∃ m ∈ column, r.text.length ≤ m.text.length
  lower : r.kind = .letter → (∀ m ∈ column, IsLowerAscii m.text) → IsLowerAscii r.text
  upper : r.kind = .letter → (∀ m ∈ column, IsUpperAscii m.text) → IsUpperAscii r.text

/-- A run has the common text of a column, or is among its runs if they
    differ. -/
structure Run.Resembles (r : Run) (column : List Run) : Prop where
  common : Coincide column → ∀ m ∈ column, r.text = m.text
  among : ¬ Coincide column → r.IsAmong column

section Column

variable {key : RunKey} {column : List Run} {r : Run} {word : Text}

theorem agree_iff_coincide : agree (column.map Run.text) = true ↔ Coincide column := by
  rw [agree_iff]
  simp [Coincide]

namespace IsColumn

theorem kinds (h : IsColumn key column) : ∀ m ∈ column, m.kind = key.kind := by
  intro m hm
  rw [← h.keys m hm, Run.kind_key]

/-- The written pieces of a column whose runs coincide. -/
theorem piecesOf_of_coincide (h : IsColumn key column) (hsame : Coincide column) (hr : r ∈ column) :
    piecesOf column = r.text.map Piece.char := by
  obtain ⟨first, rest, rfl⟩ := List.exists_cons_of_ne_nil h.nonempty
  unfold piecesOf
  dsimp only
  rw [if_pos (agree_iff_coincide.mpr hsame), hsame first List.mem_cons_self r hr]

/-- The written piece of a column whose runs differ. -/
theorem piecesOf_of_not_coincide (h : IsColumn key column) (hdiffer : ¬ Coincide column) :
    piecesOf column = [⟨classFor key.kind (column.map Run.text),
      ⟨leastLength (lengthsOf column), some (greatestLength (lengthsOf column))⟩⟩] := by
  obtain ⟨first, rest, rfl⟩ := List.exists_cons_of_ne_nil h.nonempty
  rw [← h.kinds first List.mem_cons_self]
  unfold piecesOf
  dsimp only
  rw [if_neg fun hagree => hdiffer (agree_iff_coincide.mp hagree)]

/-- A word is as long as the count of the column admits if it is as long as
    its runs. -/
theorem admits_iff (h : IsColumn key column) {n : Nat} :
    Bounds.Admits ⟨leastLength (lengthsOf column), some (greatestLength (lengthsOf column))⟩ n ↔
      (∃ m ∈ column, m.text.length ≤ n) ∧ ∃ m ∈ column, n ≤ m.text.length := by
  constructor
  · intro hadmits
    obtain ⟨m, hm, hleast⟩ := exists_length_eq (leastLength_mem h.lengthsOf_ne_nil)
    obtain ⟨m', hm', hgreatest⟩ := exists_length_eq (greatestLength_mem h.lengthsOf_ne_nil)
    exact ⟨⟨m, hm, hleast ▸ hadmits.1⟩, ⟨m', hm', hgreatest ▸ hadmits.2 _ rfl⟩⟩
  · rintro ⟨⟨m, hm, hleast⟩, ⟨m', hm', hgreatest⟩⟩
    refine ⟨(leastLength_le (mem_lengthsOf hm)).trans hleast, fun high hhigh => ?_⟩
    obtain rfl := Option.some.inj hhigh
    exact hgreatest.trans (le_greatestLength (mem_lengthsOf hm'))

/-- What is told of the texts of a column of letters is a fact about their
    letters. -/
theorem all_letters_iff (h : IsColumn key column) (hletter : key.kind = .letter)
    {test : Text → Bool} {P : Text → Prop}
    (htest : ∀ {text : Text}, text ≠ [] → (∀ c ∈ text, CharKind.ofChar c = .letter) →
      (test text = true ↔ P text)) :
    (column.map Run.text).all test = true ↔ ∀ m ∈ column, P m.text := by
  rw [List.all_map, List.all_eq_true]
  refine forall₂_congr fun m hm => ?_
  apply htest (h.uniform m hm).nonempty
  intro c hc
  rw [(h.uniform m hm).kinds c hc, h.kinds m hm, hletter]

/-- The class of a column of letters accepts the words in its case. -/
theorem accepts_letters_iff (h : IsColumn key column) (hletter : key.kind = .letter) :
    (∀ c ∈ word, (classFor .letter (column.map Run.text)).accepts c = true) ↔
      (∀ c ∈ word, CharKind.ofChar c = .letter) ∧
        ((∀ m ∈ column, IsLowerAscii m.text) → IsLowerAscii word) ∧
        ((∀ m ∈ column, IsUpperAscii m.text) → IsUpperAscii word) := by
  have hall_lower := h.all_letters_iff hletter isLowerText_iff
  have hall_upper := h.all_letters_iff hletter isUpperText_iff
  rw [classFor_letter]
  by_cases hlower : ∀ m ∈ column, IsLowerAscii m.text
  · rw [if_pos (hall_lower.mpr hlower)]
    simp only [FormClass.accepts_lower_iff]
    constructor
    · intro hword
      refine ⟨fun c hc => ?_, fun _ => hword, fun hupper => ?_⟩
      · exact CharKind.ofChar_eq_letter_iff.mpr (.inl (hword c hc))
      · -- no letter has both cases
        obtain ⟨m, hm⟩ := List.exists_mem_of_ne_nil column h.nonempty
        obtain ⟨c, hc⟩ := List.exists_mem_of_ne_nil m.text (h.uniform m hm).nonempty
        have hle : 'a' ≤ 'Z' := (hlower m hm c hc).1.trans (hupper m hm c hc).2
        exact absurd hle (by decide)
    · rintro ⟨-, hword, -⟩
      exact hword hlower
  · rw [if_neg fun hall => hlower (hall_lower.mp hall)]
    by_cases hupper : ∀ m ∈ column, IsUpperAscii m.text
    · rw [if_pos (hall_upper.mpr hupper)]
      simp only [FormClass.accepts_upper_iff]
      constructor
      · intro hword
        refine ⟨fun c hc => ?_, fun hall => absurd hall hlower, fun _ => hword⟩
        exact CharKind.ofChar_eq_letter_iff.mpr (.inr (hword c hc))
      · rintro ⟨-, -, hword⟩
        exact hword hupper
    · rw [if_neg fun hall => hupper (hall_upper.mp hall)]
      simp only [FormClass.accepts_letter_iff]
      constructor
      · intro hword
        exact ⟨hword, fun hall => absurd hall hlower, fun hall => absurd hall hupper⟩
      · exact And.left

/-- The class of a column of digits or letters accepts the words of that
    kind and case. -/
theorem accepts_iff (h : IsColumn key column) (hkind : key.kind = .digit ∨ key.kind = .letter)
    (hascii : ∀ c ∈ word, c.toNat < 128) :
    (∀ c ∈ word, (classFor key.kind (column.map Run.text)).accepts c = true) ↔
      (∀ c ∈ word, CharKind.ofChar c = key.kind) ∧
        (key.kind = .letter → (∀ m ∈ column, IsLowerAscii m.text) → IsLowerAscii word) ∧
        (key.kind = .letter → (∀ m ∈ column, IsUpperAscii m.text) → IsUpperAscii word) := by
  rcases hkind with hdigit | hletter
  · have hnone : ¬ CharKind.digit = .letter := by decide
    rw [hdigit]
    constructor
    · intro hword
      refine ⟨fun c hc => ?_, fun hletter => absurd hletter hnone,
        fun hletter => absurd hletter hnone⟩
      exact ofChar_of_isDecimal (hascii c hc) (hword c hc)
    · rintro ⟨hword, -, -⟩ c hc
      exact isDecimal_of_ofChar (hword c hc)
  · rw [hletter, h.accepts_letters_iff hletter]
    simp only [forall_const]

/-- The pieces of a column describe the texts of the runs that resemble it. -/
theorem mem_language_iff (h : IsColumn key column) (hother : key.kind ≠ .other)
    (hascii : ∀ c ∈ word, c.toNat < 128) :
    word ∈ ((piecesOf column).map Piece.language).prod ↔
      ∃ r : Run, r.text = word ∧ r.key = key ∧ r.IsUniform ∧ r.Resembles column := by
  by_cases hsame : Coincide column
  · obtain ⟨m, hm⟩ := List.exists_mem_of_ne_nil column h.nonempty
    rw [h.piecesOf_of_coincide hsame hm, Piece.mem_prod_chars]
    constructor
    · rintro rfl
      exact ⟨m, rfl, h.keys m hm, h.uniform m hm, fun _ => hsame m hm,
        fun hdiffer => absurd hsame hdiffer⟩
    · rintro ⟨r, rfl, -, -, hr⟩
      exact hr.common hsame m hm
  · -- marks coincide, so a column with different texts holds digits or letters
    have hpunct : key.kind ≠ .punct := by
      intro hmark
      exact hsame (agree_iff_coincide.mp (h.agree_of_punct hmark))
    have hkind : key.kind = .digit ∨ key.kind = .letter := by
      cases hcases : key.kind with
      | digit => exact .inl rfl
      | letter => exact .inr rfl
      | punct => exact absurd hcases hpunct
      | other => exact absurd hcases hother
    rw [h.piecesOf_of_not_coincide hsame, List.map_singleton, List.prod_singleton]
    show (∀ c ∈ word, (classFor key.kind (column.map Run.text)).accepts c = true) ∧
      Bounds.Admits _ word.length ↔ _
    rw [h.admits_iff, h.accepts_iff hkind hascii]
    constructor
    · rintro ⟨⟨hkinds, hlower, hupper⟩, ⟨m, hm, hshortest⟩, hlongest⟩
      have hne : word ≠ [] := by
        have hpos := List.length_pos_of_ne_nil (h.uniform m hm).nonempty
        exact List.ne_nil_of_length_pos (hpos.trans_le hshortest)
      refine ⟨⟨key.kind, word⟩, rfl, ?_, ⟨hne, hkinds, fun hmark => absurd hmark hpunct⟩,
        fun hall => absurd hall hsame, fun _ => ⟨⟨m, hm, hshortest⟩, hlongest, hlower, hupper⟩⟩
      have hmark : key.mark = [] := by
        rw [← h.keys m hm]
        simp [Run.key, h.kinds m hm, hpunct]
      simp [Run.key, hpunct, ← hmark]
    · rintro ⟨r, rfl, hkey, hr, hlike⟩
      obtain ⟨hshortest, hlongest, hlower, hupper⟩ := hlike.among hsame
      have hrkind : r.kind = key.kind := by rw [← hkey, Run.kind_key]
      rw [hrkind] at hlower hupper
      refine ⟨⟨fun c hc => ?_, hlower, hupper⟩, hshortest, hlongest⟩
      rw [hr.kinds c hc, hrkind]

end IsColumn

end Column

/-! ## Section 3: Texts like those of a group -/

/-- The runs that some texts have in one place. -/
def runsAt (texts : List Text) (i : Nat) : List Run :=
  texts.filterMap fun text => (Run.split text)[i]?

/-- A text has the shape of some texts, and in every place a run like those
    that they have there. -/
structure IsAlike (texts : List Text) (s : Text) : Prop where
  shape : ∀ text ∈ texts, shapeOf s = shapeOf text
  runs : ∀ (i : Nat) (r : Run), (Run.split s)[i]? = some r → r.Resembles (runsAt texts i)

section Group

variable {shape : List RunKey} {group : List (List Run)} {s : Text}

/-- The pieces of some columns describe what uniform runs like those of the
    columns make up. -/
theorem mem_language_columns_iff {columns : List (List Run)}
    (h : List.Forall₂ IsColumn shape columns) (hkinds : ∀ key ∈ shape, key.kind ≠ .other)
    (hascii : ∀ c ∈ s, c.toNat < 128) :
    s ∈ ((columns.flatMap piecesOf).map Piece.language).prod ↔
      ∃ runs : List Run, (runs.map Run.text).flatten = s ∧ (∀ r ∈ runs, r.IsUniform) ∧
        runs.map Run.key = shape ∧ List.Forall₂ Run.Resembles runs columns := by
  -- a word of the columns is a word of the first one and one of the others
  induction h generalizing s with
  | nil =>
    show s ∈ (1 : Language Char) ↔ _
    rw [Language.mem_one]
    constructor
    · rintro rfl
      exact ⟨[], rfl, fun r hr => absurd hr List.not_mem_nil, rfl, .nil⟩
    · rintro ⟨runs, rfl, -, hkeys, -⟩
      rw [List.map_eq_nil_iff.mp hkeys]
      rfl
  | @cons key column shape columns hcolumn _ ih =>
    obtain ⟨hkey, hrest⟩ := List.forall_mem_cons.mp hkinds
    rw [List.flatMap_cons, List.map_append, List.prod_append, Language.mem_mul]
    constructor
    · rintro ⟨word, hword, tail, htail, rfl⟩
      rw [List.forall_mem_append] at hascii
      obtain ⟨r, rfl, hrkey, hr, hlike⟩ := (hcolumn.mem_language_iff hkey hascii.1).mp hword
      obtain ⟨runs, rfl, hruns, hkeys, hlikes⟩ := (ih hrest hascii.2).mp htail
      refine ⟨r :: runs, rfl, List.forall_mem_cons.mpr ⟨hr, hruns⟩, ?_, .cons hlike hlikes⟩
      rw [List.map_cons, hrkey, hkeys]
    · rintro ⟨runs, rfl, hruns, hkeys, hlikes⟩
      obtain ⟨r, rest, hlike, hrests, rfl⟩ := List.forall₂_cons_right_iff.mp hlikes
      obtain ⟨hr, hruns⟩ := List.forall_mem_cons.mp hruns
      obtain ⟨hrkey, hkeys⟩ := List.cons.inj hkeys
      rw [List.map_cons, List.flatten_cons, List.forall_mem_append] at hascii
      exact ⟨r.text, (hcolumn.mem_language_iff hkey hascii.1).mpr ⟨r, rfl, hrkey, hr, hlike⟩, _,
        (ih hrest hascii.2).mpr ⟨rest, rfl, hruns, hkeys, hrests⟩, rfl⟩

namespace IsGroup

/-- A row is related to the columns if it is in every place. -/
theorem forall₂_positions_iff (h : IsGroup shape group) {R : Run → List Run → Prop} {row : List Run}
    (hlength : row.length = shape.length) :
    List.Forall₂ R row (positions group) ↔
      ∀ (i : Nat) (r : Run), row[i]? = some r → R r (group.filterMap fun other => other[i]?) := by
  induction shape generalizing group row with
  | nil =>
    rw [List.length_eq_zero_iff.mp hlength, h.positions_nil]
    simp
  | cons key shape ih =>
    obtain ⟨r, rest, rfl⟩ := List.exists_cons_of_length_eq_add_one hlength
    -- the first column, and the columns of the rows behind it
    have hheads : group.filterMap List.head? = group.filterMap fun other => other[0]? := by
      simp only [List.head?_eq_getElem?]
    have htails (i : Nat) : ((group.map List.tail).filterMap fun other => other[i]?) =
        group.filterMap fun other => other[i + 1]? := by
      simp only [List.filterMap_map, Function.comp_def, List.getElem?_tail]
    rw [positions_of_forall_ne_nil h.nonempty h.ne_nil_of_mem, List.forall₂_cons,
      ih h.tails (Nat.succ.inj hlength), hheads]
    simp only [htails]
    constructor
    · rintro ⟨hfirst, hothers⟩ i r' hi
      cases i with
      | zero =>
        obtain rfl := Option.some.inj hi
        exact hfirst
      | succ i => exact hothers i r' hi
    · intro hall
      exact ⟨hall 0 r rfl, fun i r' hi => hall (i + 1) r' hi⟩

/-- The form of a group describes the texts that have its shape and runs like
    its own. -/
theorem mem_language_iff (h : IsGroup shape group) (hchain : shape.IsChain RunKey.Apart)
    (hkinds : ∀ key ∈ shape, key.kind ≠ .other) (hascii : ∀ c ∈ s, c.toNat < 128) :
    s ∈ (ShapeForm.ofRuns group).form.language ↔
      shapeOf s = shape ∧
        ∀ (i : Nat) (r : Run), (Run.split s)[i]? = some r →
          r.Resembles (group.filterMap fun row => row[i]?) := by
  rw [language_ofRuns, groupPieces, mem_language_columns_iff h.forall₂_columns hkinds hascii]
  constructor
  · rintro ⟨runs, hflatten, huniform, hkeys, hlike⟩
    -- the words are the runs of the text, since neighbours do not join
    have hsplit : Run.split s = runs := by
      rw [← hflatten]
      exact Run.split_flatten huniform (hkeys ▸ hchain)
    rw [shapeOf, hsplit]
    have hlength : runs.length = shape.length := by rw [← hkeys, List.length_map]
    exact ⟨hkeys, (h.forall₂_positions_iff hlength).mp hlike⟩
  · rintro ⟨hshape, hlike⟩
    have hlength : (Run.split s).length = shape.length := by rw [← hshape, shapeOf, List.length_map]
    exact ⟨Run.split s, Run.flatten_split s, Run.isUniform_of_mem_split, hshape,
      (h.forall₂_positions_iff hlength).mpr hlike⟩

end IsGroup

end Group

/-- The pattern for ASCII texts of one shape without blanks matches the ASCII
    texts like them, and no other ones. -/
theorem ShapeForm.fullMatch_iff_isAlike {texts : List Text} {shape : List RunKey}
    (hne : texts ≠ []) (h : ∀ text ∈ texts, shapeOf text = shape)
    (hkinds : ∀ key ∈ shape, key.kind ≠ .other) {s : Text} (hascii : ∀ c ∈ s, c.toNat < 128) :
    (FullMatch (ShapeForm.ofRuns (texts.map Run.split)).form.text s ↔ IsAlike texts s) ∧
      ((ShapeForm.ofRuns (texts.map Run.split)).form.accepts s = true ↔ IsAlike texts s) := by
  have hgroup := isGroup_split hne h
  obtain ⟨first, hfirst⟩ := List.exists_mem_of_ne_nil texts hne
  have halike : (ShapeForm.ofRuns (texts.map Run.split)).form.accepts s = true ↔
      IsAlike texts s := by
    rw [Form.accepts_iff hgroup.isOrdered_ofRuns,
      hgroup.mem_language_iff (isChain_of_shape hne h) hkinds hascii]
    simp only [List.filterMap_map]
    constructor
    · rintro ⟨hshape, hruns⟩
      exact ⟨fun text htext => hshape.trans (h text htext).symm, hruns⟩
    · rintro ⟨hshape, hruns⟩
      exact ⟨(hshape first hfirst).trans (h first hfirst), hruns⟩
  exact ⟨hgroup.fullMatch_iff_accepts.trans halike, halike⟩

/-- Two codes with a mark between letters and digits, and others with as many
    letters and digits as lie between theirs. -/
theorem ShapeForm.fullMatch_of_between_codes :
    (∀ text ∈ ["ab-1".toList, "cde-234".toList],
      shapeOf text = [⟨.letter, []⟩, ⟨.punct, ['-']⟩, ⟨.digit, []⟩]) ∧
      (ShapeForm.ofRuns (["ab-1".toList, "cde-234".toList].map Run.split)).form.text =
        "[a-z]\x7b2,3\x7d-\\d\x7b1,3\x7d".toList ∧
      IsAlike ["ab-1".toList, "cde-234".toList] "xy-45".toList ∧
      FullMatch (ShapeForm.ofRuns (["ab-1".toList, "cde-234".toList].map Run.split)).form.text
        "xy-45".toList ∧
      ¬ FullMatch (ShapeForm.ofRuns (["ab-1".toList, "cde-234".toList].map Run.split)).form.text
        "xY-45".toList := by
  have hshape : ∀ text ∈ ["ab-1".toList, "cde-234".toList],
      shapeOf text = [⟨.letter, []⟩, ⟨.punct, ['-']⟩, ⟨.digit, []⟩] := by decide
  have hsame : ∀ c ∈ "xy-45".toList, c.toNat < 128 := by simp
  have hmixed : ∀ c ∈ "xY-45".toList, c.toNat < 128 := by simp
  obtain ⟨hmatch, haccepts⟩ :=
    ShapeForm.fullMatch_iff_isAlike (by decide) hshape (by decide) hsame
  obtain ⟨hmatch', haccepts'⟩ :=
    ShapeForm.fullMatch_iff_isAlike (by decide) hshape (by decide) hmixed
  have halike : IsAlike ["ab-1".toList, "cde-234".toList] "xy-45".toList :=
    haccepts.mp (by decide +kernel)
  have hunlike : ¬ IsAlike ["ab-1".toList, "cde-234".toList] "xY-45".toList := by
    rw [← haccepts']
    decide +kernel
  exact ⟨hshape, by decide +kernel, halike, hmatch.mpr halike, fun h => hunlike (hmatch'.mp h)⟩

end RegexInsight
