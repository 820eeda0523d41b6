import Mathlib
import RegexInsight.Proofs.Form.Language
import RegexInsight.Proofs.Pattern.Expression

/-! # Full matches

    The plainest pattern texts have one piece after the other: a class, and
    after it a count in braces or nothing.  Such a text is read from the
    left, and each piece takes as many characters of the matched text as
    its count admits.  Marks that would mean anything else are not read, so
    a text with one of them matches nothing. -/

namespace RegexInsight

/-! ## Section 1: Reading pieces -/

namespace FormClass

/-- What a character stands for behind a backslash. -/
def ofEscaped? (c : Char) : Option FormClass :=
  if Literal.special.contains c then some (char c)
  else
    match c with
    | 'd' => some digit
    | 's' => some (shorthand .space)
    | 'S' => some (shorthand .notSpace)
    | 'n' => some (char '\n')
    | 't' => some (char '\t')
    | 'r' => some (char '\r')
    | _ => none

/-- The bracket classes with their written forms. -/
def brackets : List (Text × FormClass) := [
  (['[', 'a', '-', 'z', ']'], lower),
  (['[', 'A', '-', 'Z', ']'], upper),
  (['[', 'a', '-', 'z', 'A', '-', 'Z', ']'], letter),
  (['[', '\\', 's', '\\', 'S', ']'], anything)]

/-- The class at the front of a pattern text, with the text behind it. -/
def read? (text : Text) : Option (FormClass × Text) :=
  match text with
  | [] => none
  | '\\' :: c :: rest => (ofEscaped? c).map fun a => (a, rest)
  | c :: rest =>
    if c = '[' then
      (brackets.find? fun entry => entry.1.isPrefixOf text).map fun entry =>
        (entry.2, text.drop entry.1.length)
    else if Literal.special.contains c then none
    else some (char c, rest)

end FormClass

namespace Bounds

/-- Exactly one. -/
def once : Bounds := ⟨1, some 1⟩

/-- The number in ASCII digits at the front of a text, with the text behind
    it. -/
def number? (text : Text) : Option (Nat × Text) :=
  let digits := text.takeWhile Char.isDigit
  if digits.isEmpty then none
  else some (Nat.ofDigitChars 10 digits 0, text.dropWhile Char.isDigit)

/-- The count `{n}` or `{m,n}` at the front of a text, with the text behind
    it; without a brace the count is one. -/
def count? (text : Text) : Option (Bounds × Text) :=
  match text with
  | '\x7b' :: rest => do
    let (low, rest) ← number? rest
    match rest with
    | '\x7d' :: rest => some (⟨low, some low⟩, rest)
    | ',' :: rest => do
      let (high, rest) ← number? rest
      match rest with
      | '\x7d' :: rest => if low ≤ high then some (⟨low, some high⟩, rest) else none
      | _ => none
    | _ => none
  | rest => some (once, rest)

end Bounds

/-- A class with the number of characters that it stands for. -/
structure Piece where
  accepted : FormClass
  count : Bounds
  deriving DecidableEq, Repr

namespace Piece

/-- The piece at the front of a pattern text, with the text behind it. -/
def read? (text : Text) : Option (Piece × Text) := do
  let (accepted, rest) ← FormClass.read? text
  let (count, rest) ← Bounds.count? rest
  return (⟨accepted, count⟩, rest)

/-- As many characters of the class as the count admits. -/
def language (p : Piece) : Language Char :=
  {w | (∀ c ∈ w, p.accepted.accepts c = true) ∧ p.count.Admits w.length}

end Piece

/-- A pattern text matches a whole text. -/
inductive FullMatch : Text → Text → Prop where
  | nil : FullMatch [] []
  | piece {pattern rest word text : Text} {p : Piece}
      (hread : Piece.read? pattern = some (p, rest)) (hword : word ∈ p.language)
      (hrest : FullMatch rest text) : FullMatch pattern (word ++ text)

/-! ## Section 2: Written pieces are read back -/

/-- A text does not begin with a mark that belongs to what stands before
    it. -/
def BeginsAnew (text : Text) : Prop :=
  ∀ c ∈ text.head?, c ∈ Literal.special → c = '\\' ∨ c = '['

theorem beginsAnew_nil : BeginsAnew [] :=
  fun c hc => absurd hc (Option.not_mem_none c)

theorem beginsAnew_cons {c : Char} {rest : Text} (h : c ∈ Literal.special → c = '\\' ∨ c = '[') :
    BeginsAnew (c :: rest) := by
  intro d hd
  obtain rfl := Option.some.inj hd
  exact h

namespace FormClass

theorem beginsAnew_text (a : FormClass) (tail : Text) : BeginsAnew (a.text ++ tail) := by
  have hbackslash : ∀ rest, BeginsAnew ('\\' :: rest) := fun rest =>
    beginsAnew_cons fun _ => .inl rfl
  cases a with
  | char c =>
    show BeginsAnew (Literal.escapeChar c ++ tail)
    unfold Literal.escapeChar
    split
    next => exact hbackslash _
    next hspecial =>
      split
      next => exact hbackslash _
      split
      next => exact hbackslash _
      split
      next => exact hbackslash _
      next => exact beginsAnew_cons fun hmem => absurd (List.contains_iff_mem.mpr hmem) hspecial
  | shorthand s => cases s <;> exact hbackslash _
  | bracket items => exact beginsAnew_cons fun _ => .inr rfl

theorem read?_char (c : Char) (tail : Text) :
    read? ((char c).text ++ tail) = some (char c, tail) := by
  show read? (Literal.escapeChar c ++ tail) = _
  unfold Literal.escapeChar
  split
  next hspecial =>
    show (ofEscaped? c).map _ = _
    unfold ofEscaped?
    rw [if_pos hspecial]
    rfl
  next hspecial =>
    split
    next hnewline =>
      obtain rfl := eq_of_beq hnewline
      rfl
    split
    next htab =>
      obtain rfl := eq_of_beq htab
      rfl
    split
    next hreturn =>
      obtain rfl := eq_of_beq hreturn
      rfl
    next =>
      -- what is left stands for itself and opens neither an escape nor a class
      have hbackslash : c ≠ '\\' := by
        rintro rfl
        exact hspecial (by decide)
      have hbracket : c ≠ '[' := by
        rintro rfl
        exact hspecial (by decide)
      show read? (c :: tail) = _
      unfold read?
      split
      next heq => exact absurd heq (List.cons_ne_nil c tail)
      next heq => exact absurd (List.cons.inj heq).1 hbackslash
      next heq =>
        obtain ⟨rfl, rfl⟩ := List.cons.inj heq
        rw [if_neg hbracket, if_neg hspecial]

/-- The classes of plain pieces. -/
inductive IsSimple : FormClass → Prop where
  | char (c : Char) : IsSimple (char c)
  | shorthand (s : FormShorthand) : IsSimple (shorthand s)
  | bracket {entry : Text × FormClass} (h : entry ∈ brackets) : IsSimple entry.2

/-- The written form of a simple class is read back, whatever follows. -/
theorem IsSimple.read?_text {a : FormClass} (h : a.IsSimple) (tail : Text) :
    read? (a.text ++ tail) = some (a, tail) := by
  cases h with
  | char c => exact read?_char c tail
  | shorthand s => cases s <;> rfl
  | bracket hentry =>
    simp only [brackets, List.mem_cons, List.not_mem_nil, or_false] at hentry
    rcases hentry with rfl | rfl | rfl | rfl <;> rfl

end FormClass

namespace Bounds

theorem number?_toDigits (n : Nat) (tail : Text) (htail : ∀ c ∈ tail.head?, c.isDigit = false) :
    number? (Nat.toDigits 10 n ++ tail) = some (n, tail) := by
  have hdigits : ∀ c ∈ Nat.toDigits 10 n, c.isDigit = true := fun c hc =>
    Nat.isDigit_of_mem_toDigits (by decide) (by decide) hc
  have hnone : tail.takeWhile Char.isDigit = [] ∧ tail.dropWhile Char.isDigit = tail := by
    cases tail with
    | nil => exact ⟨rfl, rfl⟩
    | cons c rest => simp [htail c rfl]
  have htake : (Nat.toDigits 10 n ++ tail).takeWhile Char.isDigit = Nat.toDigits 10 n := by
    rw [List.takeWhile_append_of_pos hdigits, hnone.1, List.append_nil]
  have hdrop : (Nat.toDigits 10 n ++ tail).dropWhile Char.isDigit = tail := by
    rw [List.dropWhile_append_of_pos hdigits, hnone.2]
  have hsome : (Nat.toDigits 10 n).isEmpty = false :=
    List.isEmpty_eq_false_iff.mpr Nat.toDigits_ne_nil
  simp only [number?, htake, hdrop, hsome, Nat.ofDigitChars_ten_toDigits]
  rfl

/-- Bounds in braces are read back. -/
theorem count?_text {low high : Nat} (h : low ≤ high) (tail : Text) :
    count? (text ⟨low, some high⟩ ++ tail) = some (⟨low, some high⟩, tail) := by
  have hmark : ∀ {c : Char} {rest : Text}, c.isDigit = false →
      ∀ d ∈ (c :: rest).head?, d.isDigit = false := by
    intro c rest hc d hd
    obtain rfl := Option.some.inj hd
    exact hc
  by_cases heq : high = low
  · -- equal bounds are written once
    subst heq
    have hlow := number?_toDigits high ('\x7d' :: tail) (hmark (by decide))
    simp [text, count?, hlow]
  · have hhigh := number?_toDigits high ('\x7d' :: tail) (hmark (by decide))
    have hlow := number?_toDigits low (',' :: (Nat.toDigits 10 high ++ '\x7d' :: tail))
      (hmark (by decide))
    simp [text, heq, count?, hlow, hhigh, h]

/-- Without a brace nothing is counted. -/
theorem count?_of_beginsAnew {tail : Text} (h : BeginsAnew tail) :
    count? tail = some (once, tail) := by
  unfold count?
  split
  next rest =>
    have hspecial : '\x7b' ∈ Literal.special := by decide
    rcases h '\x7b' rfl hspecial with hmark | hmark
    · exact absurd hmark (by decide)
    · exact absurd hmark (by decide)
  next => rfl

end Bounds

namespace Piece

/-- The written form of a piece; a single character needs no count. -/
def text (p : Piece) : Text :=
  p.accepted.text ++ if p.count = .once then [] else p.count.text

/-- A piece with a simple class and a count of two bounds in order. -/
structure IsSimple (p : Piece) : Prop where
  accepted : p.accepted.IsSimple
  count : ∃ low high, 0 < low ∧ low ≤ high ∧ p.count = ⟨low, some high⟩

variable {p : Piece} {pieces : List Piece} {tail word : Text}

/-- A written piece is read back. -/
theorem IsSimple.read?_text (h : p.IsSimple) (htail : BeginsAnew tail) :
    read? (p.text ++ tail) = some (p, tail) := by
  obtain ⟨haccepted, low, high, -, hle, hcount⟩ := h
  have hread := haccepted.read?_text ((if p.count = .once then [] else p.count.text) ++ tail)
  have hrest : Bounds.count? ((if p.count = .once then [] else p.count.text) ++ tail) =
      some (p.count, tail) := by
    split
    next honce =>
      rw [honce]
      exact Bounds.count?_of_beginsAnew htail
    next =>
      rw [hcount]
      exact Bounds.count?_text hle tail
  rw [text, List.append_assoc]
  simp only [read?, hread, hrest, Option.bind_eq_bind, Option.bind_some]
  rfl

theorem beginsAnew_texts (pieces : List Piece) : BeginsAnew (pieces.flatMap text) := by
  cases pieces with
  | nil => exact beginsAnew_nil
  | cons p rest =>
    rw [List.flatMap_cons, text, List.append_assoc]
    exact p.accepted.beginsAnew_text _

/-! ## Section 3: The language of written pieces -/

theorem fullMatch_nil_iff : FullMatch [] word ↔ word = [] := by
  constructor
  · intro h
    cases h with
    | nil => rfl
    | piece hread => exact absurd hread (by simp [read?, FormClass.read?])
  · rintro rfl
    exact .nil

/-- Pieces one after the other match the product of their languages. -/
theorem fullMatch_texts_iff (h : ∀ p ∈ pieces, p.IsSimple) :
    FullMatch (pieces.flatMap text) word ↔ word ∈ (pieces.map language).prod := by
  induction pieces generalizing word with
  | nil => exact fullMatch_nil_iff
  | cons p rest ih =>
    obtain ⟨hp, hrest⟩ := List.forall_mem_cons.mp h
    have hread := hp.read?_text (beginsAnew_texts rest)
    rw [List.flatMap_cons, List.map_cons, List.prod_cons, Language.mem_mul]
    constructor
    · intro hmatch
      generalize hpattern : p.text ++ rest.flatMap text = pattern at hmatch hread
      cases hmatch with
      | nil => exact absurd hread (by simp [read?, FormClass.read?])
      | piece hread' hword hmatch =>
        -- the reader is a function, so the piece is the one that was written
        obtain ⟨rfl, rfl⟩ := Prod.mk.inj (Option.some.inj (hread.symm.trans hread'))
        exact ⟨_, hword, _, (ih hrest).mp hmatch, rfl⟩
    · rintro ⟨x, hx, y, hy, rfl⟩
      exact .piece hread hx ((ih hrest).mpr hy)

/-! ## Section 4: Literal characters -/

/-- One character that stands for itself. -/
def char (c : Char) : Piece := ⟨.char c, .once⟩

theorem mem_language_char {c : Char} : word ∈ (char c).language ↔ word = [c] := by
  have honce : ∀ n, Bounds.once.Admits n ↔ n = 1 := by
    intro n
    simp only [Bounds.Admits, Bounds.once, Option.some.injEq, forall_eq']
    omega
  show (∀ d ∈ word, (d == c) = true) ∧ Bounds.once.Admits word.length ↔ word = [c]
  rw [honce]
  constructor
  · rintro ⟨hall, hlength⟩
    obtain ⟨d, rfl⟩ := List.length_eq_one_iff.mp hlength
    rw [eq_of_beq (hall d List.mem_cons_self)]
  · rintro rfl
    simp

/-- The characters of a text describe that text. -/
theorem mem_prod_chars {chars : Text} :
    word ∈ ((chars.map char).map language).prod ↔ word = chars := by
  induction chars generalizing word with
  | nil => exact Language.mem_one word
  | cons c rest ih =>
    rw [List.map_cons, List.map_cons, List.prod_cons, Language.mem_mul]
    constructor
    · rintro ⟨x, hx, y, hy, rfl⟩
      rw [mem_language_char.mp hx, ih.mp hy]
      rfl
    · rintro rfl
      exact ⟨[c], mem_language_char.mpr rfl, rest, ih.mpr rfl, rfl⟩

/-! ## Section 5: Pieces as forms -/

/-- The form of a piece. -/
def form (p : Piece) : Form :=
  if p.count = .once then .one p.accepted else .rep (.one p.accepted) p.count

theorem mem_pow_language {a : FormClass} {n : Nat} :
    word ∈ a.language ^ n ↔ (∀ c ∈ word, a.accepts c = true) ∧ word.length = n := by
  induction n generalizing word with
  | zero =>
    rw [pow_zero, Language.mem_one, List.length_eq_zero_iff]
    exact ⟨fun hnil => ⟨by simp [hnil], hnil⟩, And.right⟩
  | succ n ih =>
    rw [pow_succ', Language.mem_mul]
    constructor
    · rintro ⟨x, ⟨c, hc, rfl⟩, y, hy, rfl⟩
      obtain ⟨hall, hlength⟩ := ih.mp hy
      exact ⟨List.forall_mem_cons.mpr ⟨hc, hall⟩, congrArg (· + 1) hlength⟩
    · rintro ⟨hall, hlength⟩
      obtain ⟨c, rest, rfl⟩ := List.exists_cons_of_length_eq_add_one hlength
      obtain ⟨hc, hrest⟩ := List.forall_mem_cons.mp hall
      exact ⟨[c], ⟨c, hc, rfl⟩, rest, ih.mpr ⟨hrest, Nat.succ.inj hlength⟩, rfl⟩

theorem language_form (p : Piece) : p.form.language = p.language := by
  ext w
  unfold form
  split
  next honce =>
    rw [Form.language, ← pow_one p.accepted.language, mem_pow_language]
    refine and_congr_right fun _ => ?_
    rw [honce]
    simp only [Bounds.Admits, Bounds.once, Option.some.injEq, forall_eq']
    omega
  next =>
    rw [Form.mem_language_rep]
    constructor
    · rintro ⟨n, hn, hmem⟩
      obtain ⟨hall, rfl⟩ := mem_pow_language.mp hmem
      exact ⟨hall, hn⟩
    · rintro ⟨hall, hlength⟩
      exact ⟨w.length, hlength, mem_pow_language.mpr ⟨hall, rfl⟩⟩

theorem IsSimple.text_form (h : p.IsSimple) : p.form.text = p.text := by
  obtain ⟨-, low, high, hlow, -, hcount⟩ := h
  unfold form text
  split
  next => exact (List.append_nil _).symm
  next =>
    show p.accepted.text ++ Form.boundsText p.count = _
    rw [hcount]
    obtain ⟨n, rfl⟩ := Nat.exists_eq_succ_of_ne_zero (Nat.ne_of_gt hlow)
    by_cases heq : n + 1 = high
    · simp [Form.boundsText, Bounds.text, heq]
    · simp [Form.boundsText, Bounds.text, heq, Ne.symm heq]

theorem IsSimple.isOrdered_form (h : p.IsSimple) : p.form.IsOrdered := by
  obtain ⟨-, low, high, -, hle, hcount⟩ := h
  unfold form
  split
  next => trivial
  next =>
    refine ⟨trivial, fun top htop => ?_⟩
    rw [hcount] at htop ⊢
    obtain rfl := Option.some.inj htop
    exact hle

end Piece

end RegexInsight
