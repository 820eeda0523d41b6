import Mathlib
import RegexInsight.Form
import RegexInsight.Proofs.Pattern.Reading

/-! # Reading written classes

    A class in brackets is read member by member.  Where no member begins
    or ends with a mark that means something inside brackets, the members
    are read as they were written, and the characters of the class are
    those of its members.  So the class of a form is read as one leaf. -/

namespace RegexInsight

/-! ## Section 1: Members -/

/-- The characters with a meaning of their own inside brackets. -/
def Bracket.marks : List Char := ['[', ']', '\\', '^', '-']

/-- The shorthand of the pattern language that a form writes. -/
def FormShorthand.kind : FormShorthand → Shorthand
  | digit => .digit
  | space => .space
  | notSpace => .notSpace

theorem FormShorthand.text_eq (s : FormShorthand) : s.text = ['\\', s.kind.letter] := by
  cases s <;> rfl

namespace BracketItem

/-- A member without marks, and with its range in order. -/
def IsPlain : BracketItem → Prop
  | char c => c ∉ Bracket.marks
  | range lo hi => lo ∉ Bracket.marks ∧ hi ∉ Bracket.marks ∧ lo ≤ hi
  | shorthand _ => True

/-- The characters that the pattern language gives to a member. -/
def chars : BracketItem → CharSet
  | char c => .single c.toNat
  | range lo hi => .span lo.toNat hi.toNat
  | shorthand s => s.kind.chars

variable {item : BracketItem} {items : List BracketItem}

theorem text_char {c : Char} {isLast : Bool} (h : c ∉ Bracket.marks) :
    text isLast (char c) = [c] := by
  have hdash : c ≠ '-' := by
    rintro rfl
    exact h (by decide)
  simp [text, hdash]

/-- A plain member begins with a backslash or with no mark at all. -/
theorem exists_text_cons (h : item.IsPlain) (isLast : Bool) :
    ∃ c rest, item.text isLast = c :: rest ∧ (c = '\\' ∨ c ∉ Bracket.marks) := by
  cases item with
  | char c => exact ⟨c, [], text_char h, .inr h⟩
  | range lo hi => exact ⟨lo, ['-', hi], rfl, .inr h.1⟩
  | shorthand s => exact ⟨'\\', [s.kind.letter], s.text_eq, .inl rfl⟩

/-- Plain members before the closing bracket begin with no mark but a
    backslash, or with that bracket. -/
theorem exists_texts_cons (h : ∀ item ∈ items, item.IsPlain) (tail : Text) :
    ∃ c rest, texts items ++ ']' :: tail = c :: rest ∧
      (c = '\\' ∨ c ∉ Bracket.marks ∨ (items = [] ∧ c = ']')) := by
  cases items with
  | nil => exact ⟨']', tail, rfl, .inr (.inr ⟨rfl, rfl⟩)⟩
  | cons item rest =>
    obtain ⟨c, more, htext, hc⟩ := exists_text_cons (h item List.mem_cons_self) rest.isEmpty
    refine ⟨c, more ++ texts rest ++ ']' :: tail, ?_, hc.imp_right .inl⟩
    rw [texts, htext]
    simp

end BracketItem

namespace Bracket

variable {cur : Cursor} {tail : Text} {item : BracketItem} {items : List BracketItem}

theorem readAtom_char {c : Char} (hc : c ∉ marks) (hrest : cur.rest = c :: tail) :
    readAtom cur = .ok (.char c.toNat, cur.advance 1) := by
  have hbackslash : c ≠ '\\' := by
    rintro rfl
    exact hc (by decide)
  exact readAtom_plain hrest hbackslash

theorem readAtom_shorthand {kind : Shorthand} (hrest : cur.rest = '\\' :: kind.letter :: tail) :
    readAtom cur = .ok (⟨kind.chars, none, false⟩, cur.advance 2) := by
  unfold readAtom
  rw [hrest]
  cases kind <;> rfl

theorem readItem_of_no_range {atom : Atom} {after : Cursor}
    (hatom : readAtom cur = .ok (atom, after)) (h : atom.single = none ∨ '-' ∉ after.rest.head?) :
    readItem cur = .ok ((atom.chars, atom.isProperty), after) := by
  refine readItem_alone hatom (h.imp_right fun hdash ⟨next, rest, hrest, _⟩ => hdash ?_)
  rw [hrest]
  rfl

theorem readItem_plain (h : item.IsPlain) {isLast : Bool}
    (hrest : cur.rest = item.text isLast ++ tail) (htail : '-' ∉ tail.head?) :
    readItem cur = .ok ((item.chars, false), cur.advance (item.text isLast).length) := by
  cases item with
  | char c =>
    rw [BracketItem.text_char h] at hrest ⊢
    have hafter : (cur.advance 1).rest = tail := by
      rw [Cursor.advance_rest, hrest]
      rfl
    exact readItem_of_no_range (readAtom_char h hrest) (.inr (hafter ▸ htail))
  | shorthand s =>
    rw [BracketItem.text, s.text_eq] at hrest ⊢
    exact readItem_of_no_range (readAtom_shorthand hrest) (.inl rfl)
  | range lo hi =>
    obtain ⟨hlo, hhi, hle⟩ := h
    -- a closing bracket would end the class instead of the range
    have hbracket : hi ≠ ']' := by
      rintro rfl
      exact hhi (by decide)
    have hlow := readAtom_char hlo hrest
    have hdash : (cur.advance 1).rest = '-' :: hi :: tail := by
      rw [Cursor.advance_rest, hrest]
      rfl
    have hbehind : ((cur.advance 1).advance 1).rest = hi :: tail := by
      rw [Cursor.advance_rest, hdash]
      rfl
    have hhigh := readAtom_char hhi hbehind
    have horder : ¬ hi.toNat < lo.toNat := Nat.not_lt.mpr hle
    rw [readItem_of_goesOn hlow rfl ⟨hi, tail, hdash, hbracket⟩ hhigh rfl, if_neg horder,
      Cursor.advance_advance, Cursor.advance_advance]
    rfl

/-- Nothing plain begins with the mark of a POSIX class. -/
theorem posixName?_eq_none {c : Char} (hc : c ≠ '[') (hrest : cur.rest = c :: tail) :
    posixName? cur = none := by
  unfold posixName?
  rw [hrest]
  split
  next heq => exact absurd (List.cons.inj heq).1 hc
  next => rfl

/-- Members are read up to the closing bracket, the last one first. -/
theorem readMembers_plain {fuel : Nat} (start : Nat) (isFirst : Bool) (members : Members)
    (h : ∀ item ∈ items, item.IsPlain) (hfirst : isFirst = true → items ≠ [])
    (hrest : cur.rest = BracketItem.texts items ++ ']' :: tail) (hfuel : items.length < fuel) :
    readMembers start fuel isFirst members cur =
      .ok ({ members with sets := (items.map BracketItem.chars).reverse ++ members.sets },
        cur.advance ((BracketItem.texts items).length + 1)) := by
  induction items generalizing fuel isFirst members cur with
  | nil =>
    obtain ⟨fuel, rfl⟩ := Nat.exists_eq_succ_of_ne_zero (Nat.ne_of_gt hfuel)
    have hlast : isFirst = false := by
      cases isFirst with
      | true => exact absurd rfl (hfirst rfl)
      | false => rfl
    exact hlast ▸ readMembers_close hrest start fuel members
  | cons item rest ih =>
    obtain ⟨fuel, rfl⟩ := Nat.exists_eq_succ_of_ne_zero (Nat.ne_of_gt (Nat.zero_lt_of_lt hfuel))
    obtain ⟨hitem, hplain⟩ := List.forall_mem_cons.mp h
    obtain ⟨c, more, hcons, hc⟩ := BracketItem.exists_texts_cons h tail
    have hmarks : c ≠ '[' ∧ c ≠ ']' := by
      rcases hc with rfl | hc | ⟨hnil, -⟩
      · decide
      · constructor
        · rintro rfl
          exact hc (by decide)
        · rintro rfl
          exact hc (by decide)
      · exact absurd hnil (List.cons_ne_nil item rest)
    have hposix := posixName?_eq_none hmarks.1 (hrest.trans hcons)
    -- the next member or the closing bracket begins with no dash
    have hdash : '-' ∉ (BracketItem.texts rest ++ ']' :: tail).head? := by
      obtain ⟨d, _, hnext, hd⟩ := BracketItem.exists_texts_cons hplain tail
      rw [hnext]
      intro hmem
      obtain rfl := Option.some.inj hmem
      rcases hd with hd | hd | ⟨-, hd⟩
      · exact absurd hd (by decide)
      · exact hd (by decide)
      · exact absurd hd (by decide)
    rw [BracketItem.texts, List.append_assoc] at hrest
    have hread := readItem_plain hitem hrest hdash
    have hafter : (cur.advance (item.text rest.isEmpty).length).rest =
        BracketItem.texts rest ++ ']' :: tail := by
      rw [Cursor.advance_rest, hrest, List.drop_left]
    have hmore := ih false { members with sets := item.chars :: members.sets } hplain (by simp)
      hafter (Nat.lt_of_succ_lt_succ hfuel)
    have hhead : cur.rest = c :: more := by
      rw [hrest, ← hcons, BracketItem.texts, List.append_assoc]
    rw [readMembers_member (by simp [hhead]) (.inr (by simp [hhead, hmarks.2])) hposix, hread]
    simp only [bind, Except.bind, Bool.or_false]
    rw [hmore, Cursor.advance_advance, BracketItem.texts, List.length_append, Nat.add_assoc]
    simp

theorem length_le_texts (h : ∀ item ∈ items, item.IsPlain) :
    items.length ≤ (BracketItem.texts items).length := by
  induction items with
  | nil => exact Nat.le_refl 0
  | cons item rest ih =>
    obtain ⟨hitem, hrest⟩ := List.forall_mem_cons.mp h
    obtain ⟨c, more, htext, -⟩ := BracketItem.exists_text_cons hitem rest.isEmpty
    have hle := ih hrest
    rw [BracketItem.texts, htext, List.length_append, List.length_cons, List.length_cons]
    omega

/-- A class of plain members is read as a leaf with their characters. -/
theorem read_plain {written : Text} (hwritten : written = ['['] ++ BracketItem.texts items ++ [']'])
    (hne : items ≠ []) (h : ∀ item ∈ items, item.IsPlain) (hrest : cur.rest = written ++ tail) :
    read .none cur =
      .ok (⟨.charClass written .plain (.unionAll (items.map BracketItem.chars)), cur.pos,
        cur.pos + written.length⟩, cur.advance written.length) := by
  have hinside : (cur.advance 1).rest = BracketItem.texts items ++ ']' :: tail := by
    rw [Cursor.advance_rest, hrest, hwritten]
    simp
  -- no plain member begins with a caret
  have hcaret : ((cur.advance 1).rest.head? == some '^') = false := by
    obtain ⟨c, more, hcons, hc⟩ := BracketItem.exists_texts_cons h tail
    rw [hinside, hcons]
    rcases hc with rfl | hc | ⟨-, rfl⟩
    · rfl
    · have hne : c ≠ '^' := by
        rintro rfl
        exact hc (by decide)
      simpa using hne
    · rfl
  -- each member takes at least one character, so that there is fuel
  have hfuel : items.length < (cur.advance 1).rest.length + 1 := by
    have hle := length_le_texts h
    rw [hinside, List.length_append]
    omega
  have hmembers :=
    readMembers_plain cur.pos true ⟨[], false, false⟩ h (fun _ => hne) hinside hfuel
  have hstop : (cur.advance 1).advance ((BracketItem.texts items).length + 1) =
      cur.advance written.length := by
    rw [Cursor.advance_advance, hwritten]
    simp [Nat.add_comm]
  have hsource : cur.rest.take (cur.pos + written.length - cur.pos) = written := by
    rw [Nat.add_sub_cancel_left, hrest, List.take_left]
  simp only [read, hcaret, Bool.false_eq_true, if_false]
  rw [hmembers, hstop]
  simp only [bind, Except.bind, Cursor.advance_pos, hsource, List.append_nil, List.reverse_reverse]
  rfl

end Bracket

/-! ## Section 2: The class of a form -/

namespace FormClass

/-- A class that is read as it was written. -/
def IsPlain : FormClass → Prop
  | char _ => True
  | shorthand _ => True
  | bracket items => items ≠ [] ∧ ∀ item ∈ items, item.IsPlain

/-- The leaf that a class is read as. -/
def label : FormClass → Label
  | char c => Modes.none.literal c.toNat
  | shorthand s => .charClass s.text .plain s.kind.chars
  | bracket items =>
    .charClass (bracket items).text .plain (.unionAll (items.map BracketItem.chars))

end FormClass

namespace ParserState

variable {s : ParserState} {a : FormClass} {tail : Text}

theorem readsLeaf_class (h : a.IsPlain) (hmodes : s.frame.modes = .none)
    (hrest : s.cur.rest = a.text ++ tail) : s.ReadsLeaf a.label s.references tail := by
  cases a with
  | char c => exact readsLeaf_literal hmodes hrest
  | shorthand kind =>
    rw [FormClass.text, kind.text_eq] at hrest
    rw [FormClass.label, kind.text_eq]
    exact readsLeaf_shorthand hmodes hrest
  | bracket items =>
    obtain ⟨hne, hitems⟩ := h
    have hread := Bracket.read_plain rfl hne hitems hrest
    refine ⟨s.cur.pos, s.cur.pos + (FormClass.bracket items).text.length,
      s.cur.advance (FormClass.bracket items).text.length, ?_,
      next_of_readAt (c := '[') hmodes hrest ?_⟩
    · rw [Cursor.advance_rest, hrest, List.drop_left]
    · rw [readAt_bracket hrest, readBracket, hmodes, hread]
      rfl

end ParserState

end RegexInsight
