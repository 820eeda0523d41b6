import Mathlib
import RegexInsight.Proofs.Pattern.CharacterCode

/-! # What a class spells

    A bracket class is written as a list of items: single characters, ranges,
    shorthands and POSIX classes.  However the characters among them are
    spelled, the class is read item by item, and the reader never takes one
    item for another: no item begins with a dash or with the closing bracket.
    So the members of a class are the code points that belong to one of its
    items, up to case if case is ignored, and the others if the class is
    negated.  A range that is in the wrong order is rejected. -/

namespace RegexInsight

/-! ## Section 1: Items -/

/-- How a character is written in a class: as itself, as every letter and
    digit can be, or by its number in hexadecimal digits. -/
inductive CodePoint.WrittenAs : CodePoint → Text → Prop where
  | raw {c : Char} (h : c ∉ Bracket.marks) : WrittenAs c.toNat [c]
  | hex {digits : Text} (hsome : digits ≠ []) (hdigits : ∀ d ∈ digits, Escape.isHex d = true)
      (hle : Escape.valueIn 16 digits ≤ maxCodePoint) :
      WrittenAs (Escape.valueIn 16 digits) ('\\' :: 'x' :: '\x7b' :: (digits ++ ['\x7d']))

/-- Every number has hexadecimal digits. -/
theorem Escape.exists_hexDigits (n : Nat) :
    ∃ digits, digits ≠ [] ∧ (∀ d ∈ digits, isHex d = true) ∧ valueIn 16 digits = n := by
  have hsmall : n < 16 ^ (n + 1) :=
    (Nat.lt_succ_self n).trans (Nat.lt_pow_self (show 1 < 16 by decide))
  obtain ⟨digits, -, hdigits⟩ :=
    exists_isNumeral (by decide) (by decide) (Nat.succ_pos n) hsmall
  exact ⟨digits, hdigits.ne_nil, isHex_of_isNumeral hdigits, hexValue_of_isNumeral hdigits⟩

/-- The code points are what can be written as a character in a class. -/
theorem CodePoint.exists_writtenAs_iff {c : CodePoint} :
    (∃ text, c.WrittenAs text) ↔ c ≤ maxCodePoint := by
  constructor
  · rintro ⟨text, htext⟩
    cases htext with
    | raw => exact toNat_le_maxCodePoint _
    | hex _ _ hle => exact hle
  · intro hc
    obtain ⟨digits, hsome, hdigits, rfl⟩ := Escape.exists_hexDigits c
    exact ⟨_, .hex hsome hdigits hc⟩

/-- An item of a class. -/
inductive ClassItem where
  | char (c : CodePoint)
  | range (lo hi : CodePoint)
  | shorthand (kind : Shorthand)
  | posix (negated : Bool) (name : Text)
  deriving DecidableEq, Repr

namespace ClassItem

/-- How an item is written. -/
inductive WrittenAs : ClassItem → Text → Prop where
  | char {c : CodePoint} {text : Text} (h : c.WrittenAs text) : WrittenAs (char c) text
  | range {lo hi : CodePoint} {low high : Text} (hlo : lo.WrittenAs low) (hhi : hi.WrittenAs high) :
      WrittenAs (range lo hi) (low ++ '-' :: high)
  | shorthand {kind : Shorthand} : WrittenAs (shorthand kind) ['\\', kind.letter]
  | posix {negated : Bool} {name : Text} (hname : (posixClass? name).isSome = true) :
      WrittenAs (posix negated name)
        ('[' :: ':' :: ((if negated then ['^'] else []) ++ name ++ [':', ']']))

/-- Whether a code point belongs to an item. -/
def Holds (x : CodePoint) : ClassItem → Prop
  | char c => x = c
  | range lo hi => lo ≤ x ∧ x ≤ hi
  | shorthand kind => kind.chars.contains x = true
  | posix negated name => ∃ chars, posixClass? name = some chars ∧ chars.contains x ≠ negated

/-- The ends of a range are in order. -/
def Ordered : ClassItem → Prop
  | range lo hi => lo ≤ hi
  | _ => True

def isPosix : ClassItem → Bool
  | posix _ _ => true
  | _ => false

/-- The text of a class of items that are written in this way. -/
def classText (negated : Bool) (texts : List Text) : Text :=
  '[' :: ((if negated then ['^'] else []) ++ texts.flatten ++ [']'])

/-- The set that is read for an item. -/
def chars : ClassItem → CharSet
  | char c => .single c
  | range lo hi => .span lo hi
  | shorthand kind => kind.chars
  | posix negated name =>
    let chars := (posixClass? name).getD .empty
    if negated then chars.complement else chars

end ClassItem

/-! ## Section 2: POSIX classes -/

theorem exists_mem_posixClasses {name : Text} {chars : CharSet}
    (h : posixClass? name = some chars) :
    ∃ entry ∈ posixClasses, entry.1.toList = name ∧ entry.2 = chars := by
  obtain ⟨entry, hfind, rfl⟩ := Option.map_eq_some_iff.mp h
  have hname : (entry.1.toList == name) = true :=
    List.find?_some (p := fun entry : String × CharSet => entry.1.toList == name) hfind
  exact ⟨entry, List.mem_of_find?_eq_some hfind, eq_of_beq hname, rfl⟩

theorem isCanonical_of_posixClass? {name : Text} {chars : CharSet}
    (h : posixClass? name = some chars) : chars.IsCanonical := by
  have hall : ∀ entry ∈ posixClasses, entry.2.IsCanonical := by
    simp only [posixClasses, List.forall_mem_cons, List.not_mem_nil, false_imp_iff, implies_true,
      and_true]
    refine ⟨?_, ?_, ?_, ?_, ?_, ?_, ?_, ?_, ?_, ?_, ?_, ?_, ?_, ?_⟩ <;>
      exact CharSet.isCanonical_ofIntervals _
  obtain ⟨entry, hentry, -, rfl⟩ := exists_mem_posixClasses h
  exact hall entry hentry

/-- The name of a POSIX class has no mark of its writing in it. -/
theorem not_mem_of_posixClass? {name : Text} (h : (posixClass? name).isSome = true) :
    ':' ∉ name ∧ '^' ∉ name ∧ ']' ∉ name := by
  have hall : ∀ entry ∈ posixClasses,
      ':' ∉ entry.1.toList ∧ '^' ∉ entry.1.toList ∧ ']' ∉ entry.1.toList := by
    simp [posixClasses]
  obtain ⟨chars, hchars⟩ := Option.isSome_iff_exists.mp h
  obtain ⟨entry, hentry, rfl, -⟩ := exists_mem_posixClasses hchars
  exact hall entry hentry

theorem ClassItem.contains_chars {item : ClassItem} {text : Text} (h : item.WrittenAs text)
    {x : CodePoint} (hx : x ≤ maxCodePoint) : item.chars.contains x = true ↔ item.Holds x := by
  cases h with
  | char => exact CharSet.contains_single
  | range => simp [chars, Holds, CharSet.span, CharSet.contains_ofIntervals]
  | shorthand => rfl
  | @posix negated name hname =>
    obtain ⟨chars, hchars⟩ := Option.isSome_iff_exists.mp hname
    have hcanonical := isCanonical_of_posixClass? hchars
    cases negated with
    | false => simp [ClassItem.chars, Holds, hchars]
    | true => simp [ClassItem.chars, Holds, hchars, CharSet.contains_complement hcanonical hx]

/-- The sets that are read for some items contain what belongs to one of
    them. -/
theorem contains_unionAll_chars {items : List ClassItem} {texts : List Text}
    (h : List.Forall₂ ClassItem.WrittenAs items texts) {x : CodePoint} (hx : x ≤ maxCodePoint) :
    (CharSet.unionAll (items.map ClassItem.chars)).contains x = true ↔
      ∃ item ∈ items, item.Holds x := by
  rw [CharSet.contains_unionAll]
  induction h with
  | nil => simp
  | cons hitem _ ih =>
    simp only [List.map_cons, List.exists_mem_cons_iff, ih, ClassItem.contains_chars hitem hx]

/-! ## Section 3: Reading an item -/

theorem CodePoint.WrittenAs.exists_cons {c : CodePoint} {text : Text} (h : c.WrittenAs text) :
    ∃ d rest, text = d :: rest ∧ (d = '\\' ∨ d ∉ Bracket.marks) := by
  cases h with
  | raw hc => exact ⟨_, [], rfl, .inr hc⟩
  | hex => exact ⟨'\\', _, rfl, .inl rfl⟩

theorem Cursor.beforePair?_of_not_mem {a b : Char} {found tail : Text} (h : a ∉ found) :
    beforePair? a b (found ++ a :: b :: tail) = some found := by
  refine beforePair?_eq_some_iff.mpr ⟨⟨tail, rfl⟩, fun hpair => h ?_⟩
  -- the first character of the pair is not the last one of all
  obtain ⟨before, after, heq⟩ := hpair
  have hinit := congrArg List.dropLast heq
  rw [List.dropLast_concat, List.dropLast_append_cons, List.dropLast_cons_cons] at hinit
  rw [hinit]
  exact List.mem_append_right _ List.mem_cons_self

namespace Bracket

variable {cur : Cursor} {tail : Text} {item : ClassItem} {text : Text}

theorem readAtom_code {c : CodePoint} (h : c.WrittenAs text) (hrest : cur.rest = text ++ tail) :
    readAtom cur = .ok (.char c, cur.advance text.length) := by
  cases h with
  | raw hc => exact readAtom_char hc hrest
  | @hex digits hsome hdigits hle =>
    have hhex := Escape.readHex_braced cur.pos hsome hdigits hrest
    rw [if_neg (Nat.not_lt.mpr hle)] at hhex
    rw [Escape.readAtom_hex rfl hrest, hhex]
    rfl

theorem readItem_range {lo hi : CodePoint} {low high : Text} (hlo : lo.WrittenAs low)
    (hhi : hi.WrittenAs high) (hrest : cur.rest = low ++ '-' :: high ++ tail) :
    readItem cur = if hi < lo then .fail (.reversedRange lo hi) cur.pos
      else .ok ((.span lo hi, false), cur.advance (low ++ '-' :: high).length) := by
  have hlow := readAtom_code hlo (by rw [hrest, List.append_assoc])
  have hdash : (cur.advance low.length).rest = '-' :: (high ++ tail) := by
    rw [Cursor.advance_rest, hrest, List.append_assoc, List.drop_left, List.cons_append]
  have hhigh : readAtom ((cur.advance low.length).advance 1) =
      .ok (.char hi, ((cur.advance low.length).advance 1).advance high.length) :=
    readAtom_code hhi (by rw [Cursor.advance_rest, hdash]; rfl)
  have hstop : ((cur.advance low.length).advance 1).advance high.length =
      cur.advance (low ++ '-' :: high).length := by
    rw [Cursor.advance_advance, Cursor.advance_advance, List.length_append, List.length_cons]
    congr 1
    omega
  obtain ⟨d, rest, hcons, hd⟩ := hhi.exists_cons
  have hbracket : d ≠ ']' := by
    rintro rfl
    exact hd.elim (by decide) fun h => h (by decide)
  rw [hcons, List.cons_append] at hdash
  rw [readItem_of_goesOn hlow rfl ⟨d, _, hdash, hbracket⟩ hhigh rfl, hstop]
  rfl

/-- An item that is no POSIX class is read as it is written. -/
theorem readItem_item (h : item.WrittenAs text) (hordered : item.Ordered)
    (hitem : item.isPosix = false) (hrest : cur.rest = text ++ tail) (htail : '-' ∉ tail.head?) :
    readItem cur = .ok ((item.chars, false), cur.advance text.length) := by
  cases h with
  | char hc =>
    refine readItem_of_no_range (readAtom_code hc hrest) (.inr ?_)
    rwa [Cursor.advance_rest, hrest, List.drop_left]
  | range hlo hhi => rw [readItem_range hlo hhi hrest, if_neg (Nat.not_lt.mpr hordered)]; rfl
  | shorthand => exact readItem_of_no_range (readAtom_shorthand hrest) (.inl rfl)
  | posix => cases hitem

/-- No item begins with a mark that would end it or the class, and only a
    POSIX class with an opening bracket. -/
theorem exists_cons_of_writtenAs (h : item.WrittenAs text) :
    ∃ c rest, text = c :: rest ∧ c ∉ [']', '-', '^'] ∧ (item.isPosix = false → c ≠ '[') := by
  -- a code point begins with a backslash or with a character that is no mark
  have hcode : ∀ {code : CodePoint} {written : Text}, code.WrittenAs written →
      ∃ c rest, written = c :: rest ∧ c ∉ [']', '-', '^'] ∧ c ≠ '[' := by
    intro code written hwritten
    obtain ⟨c, rest, rfl, hc⟩ := hwritten.exists_cons
    refine ⟨c, rest, rfl, ?_⟩
    rcases hc with rfl | hc
    · decide
    · simp only [marks, List.mem_cons, List.not_mem_nil, or_false, not_or] at hc ⊢
      tauto
  cases h with
  | char hc =>
    obtain ⟨c, rest, rfl, hmarks, hbracket⟩ := hcode hc
    exact ⟨c, rest, rfl, hmarks, fun _ => hbracket⟩
  | range hlo hhi =>
    obtain ⟨c, rest, rfl, hmarks, hbracket⟩ := hcode hlo
    exact ⟨c, _, rfl, hmarks, fun _ => hbracket⟩
  | shorthand => exact ⟨'\\', _, rfl, by decide, fun _ => by decide⟩
  | posix => exact ⟨'[', _, rfl, by decide, nofun⟩

theorem posixName?_posix {negated : Bool} {name : Text} (hname : (posixClass? name).isSome = true)
    (hrest : cur.rest = '[' :: ':' :: ((if negated then ['^'] else []) ++ name ++ [':', ']']) ++ tail) :
    posixName? cur = some ((if negated then ['^'] else []) ++ name,
      cur.advance ('[' :: ':' :: ((if negated then ['^'] else []) ++ name ++ [':', ']'])).length) := by
  -- the first `:]` behind the opening is the one that ends the name
  have hcolon : ':' ∉ (if negated then ['^'] else []) ++ name := by
    cases negated <;> simp [(not_mem_of_posixClass? hname).1]
  have hbehind : (cur.advance 2).rest =
      (if negated then ['^'] else []) ++ name ++ ':' :: ']' :: tail := by
    simp [hrest]
  refine posixName?_eq_some_iff.mpr ⟨⟨_, hrest⟩, ?_, ?_⟩
  · rw [hbehind, Cursor.beforePair?_of_not_mem hcolon]
  · rw [Cursor.advance_advance]
    simp only [List.length_cons, List.length_append, List.length_nil]
    congr 1
    omega

theorem readPosix_posix {negated : Bool} {name : Text} (hname : (posixClass? name).isSome = true)
    (position : Nat) : readPosix position ((if negated then ['^'] else []) ++ name) =
      .ok (ClassItem.posix negated name).chars := by
  obtain ⟨chars, hchars⟩ := Option.isSome_iff_exists.mp hname
  have hcaret := (not_mem_of_posixClass? hname).2.1
  have hdrop : name.dropWhile (· == '^') = name := by
    cases name with
    | nil => rfl
    | cons c rest =>
      exact List.dropWhile_cons_of_neg (by simpa using (List.ne_of_not_mem_cons hcaret).symm)
  have hhead : (name.head? == some '^') = false := by
    cases name with
    | nil => rfl
    | cons c rest => simpa using (List.ne_of_not_mem_cons hcaret).symm
  cases negated with
  | false => simp [readPosix, ClassItem.chars, hdrop, hchars, hhead]
  | true => simp [readPosix, ClassItem.chars, hdrop, hchars]

/-! ## Section 4: Reading a class -/

/-- The members of a class with one more item. -/
def Members.add (members : Members) (item : ClassItem) : Members :=
  ⟨item.chars :: members.sets, members.hasProperty, members.hasPosix || item.isPosix⟩

/-- At an item that is no POSIX class, the next member is read as one. -/
theorem readMembers_of_not_posix (h : item.WrittenAs text) (hposix : item.isPosix = false)
    (hrest : cur.rest = text ++ tail) (start fuel : Nat) (isFirst : Bool) (members : Members) :
    readMembers start (fuel + 1) isFirst members cur = (do
      let ((chars, isProperty), after) ← readItem cur
      readMembers start fuel false
        { members with
          sets := chars :: members.sets
          hasProperty := members.hasProperty || isProperty } after) := by
  obtain ⟨c, rest, hcons, hmarks, hbracket⟩ := exists_cons_of_writtenAs h
  have hhead : cur.rest = c :: (rest ++ tail) := by rw [hrest, hcons]; rfl
  have hclose : c ≠ ']' := by
    rintro rfl
    exact hmarks (by decide)
  exact readMembers_member (by simp [hhead]) (.inr (by simpa [hhead] using hclose))
    (posixName?_eq_none (hbracket hposix) hhead) start fuel members

/-- At an item, that item is the next member. -/
theorem readMembers_item (h : item.WrittenAs text) (hordered : item.Ordered)
    (hrest : cur.rest = text ++ tail) (htail : '-' ∉ tail.head?) (start fuel : Nat)
    (isFirst : Bool) (members : Members) :
    readMembers start (fuel + 1) isFirst members cur =
      readMembers start fuel false (members.add item) (cur.advance text.length) := by
  cases hposix : item.isPosix with
  | false =>
    rw [readMembers_of_not_posix h hposix hrest, readItem_item h hordered hposix hrest htail]
    simp only [bind, Except.bind, Members.add, hposix, Bool.or_false]
  | true =>
    cases h with
    | char => cases hposix
    | range => cases hposix
    | shorthand => cases hposix
    | posix hname =>
      rw [readMembers_posix (posixName?_posix hname hrest), readPosix_posix hname]
      simp only [bind, Except.bind, Members.add, ClassItem.isPosix, Bool.or_true]

variable {items : List ClassItem} {texts : List Text}

theorem dash_not_mem_head? (h : List.Forall₂ ClassItem.WrittenAs items texts)
    (htail : '-' ∉ tail.head?) : '-' ∉ (texts.flatten ++ tail).head? := by
  cases h with
  | nil => exact htail
  | cons hitem _ =>
    obtain ⟨c, rest, rfl, hmarks, -⟩ := exists_cons_of_writtenAs hitem
    intro hmem
    obtain rfl : c = '-' := Option.some.inj hmem
    exact hmarks (by decide)

/-- Items in order are read one after the other. -/
theorem readMembers_items (h : List.Forall₂ ClassItem.WrittenAs items texts)
    (hordered : ∀ item ∈ items, item.Ordered) (hrest : cur.rest = texts.flatten ++ tail)
    (htail : '-' ∉ tail.head?) (start fuel : Nat) (isFirst : Bool) (members : Members) :
    readMembers start (items.length + fuel) isFirst members cur =
      readMembers start fuel (isFirst && items.isEmpty) (items.foldl Members.add members)
        (cur.advance texts.flatten.length) := by
  induction h generalizing cur isFirst members with
  | nil => simp
  | @cons item text items texts hitem hitems ih =>
    obtain ⟨hfirst, hordered⟩ := List.forall_mem_cons.mp hordered
    rw [List.flatten_cons, List.append_assoc] at hrest
    have hafter : (cur.advance text.length).rest = texts.flatten ++ tail := by
      rw [Cursor.advance_rest, hrest, List.drop_left]
    rw [List.length_cons, Nat.add_right_comm,
      readMembers_item hitem hfirst hrest (dash_not_mem_head? hitems htail), ih hordered hafter,
      Cursor.advance_advance, List.flatten_cons, List.length_append, List.isEmpty_cons,
      Bool.and_false]
    rfl

theorem foldl_add (items : List ClassItem) (members : Members) : items.foldl Members.add members =
    ⟨(items.map ClassItem.chars).reverse ++ members.sets, members.hasProperty,
      members.hasPosix || items.any ClassItem.isPosix⟩ := by
  induction items generalizing members with
  | nil => simp
  | cons item rest ih => simp [ih, Members.add, Bool.or_assoc]

theorem length_le_flatten (h : List.Forall₂ ClassItem.WrittenAs items texts) :
    items.length ≤ texts.flatten.length := by
  induction h with
  | nil => exact Nat.le_refl 0
  | cons hitem _ ih =>
    obtain ⟨c, rest, rfl, -, -⟩ := exists_cons_of_writtenAs hitem
    rw [List.flatten_cons, List.length_append, List.length_cons, List.length_cons]
    omega

/-- A range in the wrong order stops the reader where it stands. -/
theorem readMembers_of_lt {lo hi : CodePoint} {low high : Text} (hlo : lo.WrittenAs low)
    (hhi : hi.WrittenAs high) (hlt : hi < lo) (hrest : cur.rest = low ++ '-' :: high ++ tail)
    (start fuel : Nat) (isFirst : Bool) (members : Members) :
    readMembers start (fuel + 1) isFirst members cur =
      .error (.fault (.reversedRange lo hi) cur.pos) := by
  rw [readMembers_of_not_posix (.range hlo hhi) rfl hrest, readItem_range hlo hhi hrest,
    if_pos hlt]
  rfl

/-- A range in the wrong order stops the reader. -/
theorem readMembers_reversed (h : List.Forall₂ ClassItem.WrittenAs items texts)
    (hreversed : ∃ item ∈ items, ¬ item.Ordered) (hrest : cur.rest = texts.flatten ++ tail)
    (htail : '-' ∉ tail.head?) (start : Nat) {fuel : Nat} (hfuel : items.length ≤ fuel)
    (isFirst : Bool) (members : Members) :
    ∃ lo hi position, .range lo hi ∈ items ∧ hi < lo ∧
      readMembers start fuel isFirst members cur =
        .error (.fault (.reversedRange lo hi) position) := by
  induction h generalizing cur fuel isFirst members with
  | nil =>
    obtain ⟨item, hitem, -⟩ := hreversed
    cases hitem
  | @cons item text items texts hitem hitems ih =>
    rw [List.flatten_cons, List.append_assoc] at hrest
    obtain ⟨fuel, rfl⟩ := Nat.exists_eq_add_of_lt (Nat.lt_of_lt_of_le (Nat.zero_lt_succ _) hfuel)
    rw [Nat.zero_add] at hfuel ⊢
    -- what is in order is read, and the reader fails behind it
    by_cases hordered : item.Ordered
    · obtain ⟨lo, hi, position, hmem, hlt, hread⟩ := ih
        (by
          obtain ⟨bad, hbad, hnot⟩ := hreversed
          exact ⟨bad, (List.mem_cons.mp hbad).resolve_left fun h => hnot (h ▸ hordered), hnot⟩)
        (by rw [Cursor.advance_rest, hrest, List.drop_left])
        (Nat.le_of_succ_le_succ hfuel) false (members.add item)
      refine ⟨lo, hi, position, List.mem_cons_of_mem _ hmem, hlt, ?_⟩
      rw [readMembers_item hitem hordered hrest (dash_not_mem_head? hitems htail), hread]
    · cases hitem with
      | char => exact absurd trivial hordered
      | shorthand => exact absurd trivial hordered
      | posix => exact absurd trivial hordered
      | @range lo hi low high hlo hhi =>
        have hlt : hi < lo := Nat.not_le.mp hordered
        exact ⟨lo, hi, cur.pos, List.mem_cons_self, hlt,
          readMembers_of_lt hlo hhi hlt hrest start fuel isFirst members⟩

variable {negated : Bool}

/-- Behind the opening of a class stand its items. -/
theorem opensWith_classText (h : List.Forall₂ ClassItem.WrittenAs items texts)
    (hrest : cur.rest = ClassItem.classText negated texts) :
    ∃ k, OpensWith cur negated k ∧ (cur.advance k).rest = texts.flatten ++ [']'] ∧
      k + (texts.flatten.length + 1) = (ClassItem.classText negated texts).length := by
  have hinside : (cur.advance 1).rest =
      (if negated then ['^'] else []) ++ texts.flatten ++ [']'] := by
    rw [Cursor.advance_rest, hrest]
    rfl
  cases negated with
  | true =>
    refine ⟨2, ⟨by rw [hinside]; rfl, by rw [if_pos rfl, Cursor.advance_advance]⟩, ?_, ?_⟩
    · rw [Cursor.advance_rest, hrest]
      rfl
    · simp [ClassItem.classText]
      omega
  | false =>
    refine ⟨1, ⟨?_, rfl⟩, hinside, ?_⟩
    · rw [hinside]
      cases h with
      | nil => rfl
      | cons hitem _ =>
        obtain ⟨c, rest, rfl, hmarks, -⟩ := exists_cons_of_writtenAs hitem
        -- no item begins with a caret
        have hne : c ≠ '^' := by
          rintro rfl
          exact hmarks (by decide)
        simpa using hne
    · simp [ClassItem.classText]
      omega

theorem read_items (h : List.Forall₂ ClassItem.WrittenAs items texts) (hne : items ≠ [])
    (hordered : ∀ item ∈ items, item.Ordered)
    (hrest : cur.rest = ClassItem.classText negated texts) (modes : Modes) :
    read modes cur = .ok (⟨.charClass (ClassItem.classText negated texts)
      ⟨negated, false, items.any ClassItem.isPosix⟩
      (closed modes negated (.unionAll (items.map ClassItem.chars))), cur.pos,
      cur.pos + (ClassItem.classText negated texts).length⟩,
      cur.advance (ClassItem.classText negated texts).length) := by
  obtain ⟨k, hopens, hinside, hlength⟩ := opensWith_classText h hrest
  have hle := length_le_flatten h
  -- there is fuel for every item and for the closing bracket
  obtain ⟨fuel, hfuel⟩ : ∃ fuel, (cur.advance k).rest.length + 1 = items.length + (fuel + 1) :=
    ⟨(cur.advance k).rest.length - items.length, by
      rw [hinside, List.length_append] at *
      omega⟩
  have hclose : ((cur.advance k).advance texts.flatten.length).rest = [']'] := by
    rw [Cursor.advance_rest, hinside, List.drop_left]
  have hmembers : readMembers cur.pos ((cur.advance k).rest.length + 1) true ⟨[], false, false⟩
      (cur.advance k) = .ok (⟨(items.map ClassItem.chars).reverse, false,
        items.any ClassItem.isPosix⟩, cur.advance (ClassItem.classText negated texts).length) := by
    rw [hfuel, readMembers_items h hordered hinside (by decide), foldl_add, readMembers, hclose,
      List.isEmpty_eq_false_iff.mpr hne, Cursor.advance_advance, Cursor.advance_advance, hlength]
    simp
  rw [hopens.read_eq, hmembers]
  simp only [bind, Except.bind, Cursor.advance_pos, Nat.add_sub_cancel_left, hrest, List.take_length,
    List.reverse_reverse]
  rfl

theorem read_reversed (h : List.Forall₂ ClassItem.WrittenAs items texts)
    (hreversed : ∃ item ∈ items, ¬ item.Ordered)
    (hrest : cur.rest = ClassItem.classText negated texts) (modes : Modes) :
    ∃ lo hi position, .range lo hi ∈ items ∧ hi < lo ∧
      read modes cur = .error (.fault (.reversedRange lo hi) position) := by
  obtain ⟨k, hopens, hinside, -⟩ := opensWith_classText h hrest
  have hfuel : items.length ≤ (cur.advance k).rest.length + 1 := by
    have hle := length_le_flatten h
    rw [hinside, List.length_append]
    omega
  obtain ⟨lo, hi, position, hmem, hlt, hread⟩ := readMembers_reversed h hreversed hinside
    (by decide) cur.pos hfuel true ⟨[], false, false⟩
  refine ⟨lo, hi, position, hmem, hlt, ?_⟩
  rw [hopens.read_eq, hread]
  rfl

end Bracket

/-! ## Section 5: Patterns -/

/-- The flags in front of a class that ignores case, or nothing. -/
def caseFlags (ignoreCase : Bool) : Text :=
  if ignoreCase then ['(', '?', 'i', ')'] else []

namespace ParserState

/-- The state in front of a class. -/
def beforeClass (ignoreCase : Bool) (source : Text) : ParserState :=
  if ignoreCase then
    ({ initial (caseFlags true ++ source) with
      frame := .opened .root 0 ⟨true, false, false⟩ }.addLeaf ⟨.flags ['i'], 0, 4⟩).moveTo
        ⟨4, source⟩
  else initial source

variable {ignoreCase : Bool} {source : Text}

theorem runsTo_beforeClass :
    (initial (caseFlags ignoreCase ++ source)).RunsTo (beforeClass ignoreCase source) := by
  cases ignoreCase with
  | false => exact .refl
  | true => exact .single ⟨'(', _, rfl, rfl⟩

theorem cur_beforeClass :
    (beforeClass ignoreCase source).cur = ⟨(caseFlags ignoreCase).length, source⟩ := by
  cases ignoreCase <;> rfl

theorem modes_beforeClass :
    (beforeClass ignoreCase source).frame.modes = ⟨ignoreCase, false, false⟩ := by
  cases ignoreCase <;> rfl

end ParserState

namespace Pattern

open ParserState

variable {ignoreCase : Bool} {source rest : Text}

/-- A class that is read behind the flags is the only class of the pattern. -/
theorem exists_parse_class {traits : ClassTraits} {accepts : CharSet} (hrest : source = '[' :: rest)
    (hread : Bracket.read ⟨ignoreCase, false, false⟩ ⟨(caseFlags ignoreCase).length, source⟩ =
      .ok (⟨.charClass source traits accepts, (caseFlags ignoreCase).length,
        (caseFlags ignoreCase).length + source.length⟩,
        ⟨(caseFlags ignoreCase).length + source.length, []⟩)) :
    ∃ p n, Pattern.parse (caseFlags ignoreCase ++ source) = .ok p ∧
      (p.root.preorder.filter fun m => m.kind == .charClass) = [n] ∧
      (ignoreCase = false → n = p.root) ∧ n.start = (caseFlags ignoreCase).length ∧
      n.stop = p.text.length ∧ n.label = .charClass source traits n.chars ∧ n.chars = accepts := by
  have hnext : Next (beforeClass ignoreCase source) (((beforeClass ignoreCase source).addLeaf
      ⟨.charClass source traits accepts, (caseFlags ignoreCase).length,
        (caseFlags ignoreCase).length + source.length⟩).moveTo
        ⟨(caseFlags ignoreCase).length + source.length, []⟩) := by
    have hcur : (beforeClass ignoreCase source).cur.rest = '[' :: rest := by
      rw [cur_beforeClass, ← hrest]
    rw [← modes_beforeClass, ← cur_beforeClass] at hread
    exact ⟨'[', rest, hcur, (step_bracket hcur).trans (Read.bind_eq_ok.mpr ⟨_, hread, rfl⟩)⟩
  have hruns := runsTo_beforeClass.tail hnext
  -- the flags, if there are any, make a node of their own
  cases ignoreCase with
  | false =>
    refine ⟨_, _, Pattern.parse_eq_ok_iff.mpr ⟨_, _, hruns, rfl,
      finish_eq_ok_iff.mpr ⟨rfl, ⟨1, rfl⟩, rfl⟩, rfl⟩, rfl, fun _ => rfl, rfl, ?_, rfl, rfl⟩
    exact Nat.zero_add _
  | true =>
    refine ⟨_, _, Pattern.parse_eq_ok_iff.mpr ⟨_, _, hruns, rfl,
      finish_eq_ok_iff.mpr ⟨rfl, ⟨3, rfl⟩, rfl⟩, rfl⟩, rfl, nofun, rfl, ?_, rfl, rfl⟩
    exact (List.length_append).symm

/-- A bracket class has the members that it spells: those that belong to an
    item, up to case where case is ignored, and the others if it is negated.
    A class with a range in the wrong order is rejected. -/
theorem class_denotes {items : List ClassItem} {texts : List Text} (hne : items ≠ [])
    (hwritten : List.Forall₂ ClassItem.WrittenAs items texts) (ignoreCase negated : Bool) :
    ((∀ item ∈ items, item.Ordered) →
      ∃ p n, Pattern.parse (caseFlags ignoreCase ++ ClassItem.classText negated texts) = .ok p ∧
        (p.root.preorder.filter fun m => m.kind == .charClass) = [n] ∧
        (ignoreCase = false → n = p.root) ∧ n.start = (caseFlags ignoreCase).length ∧
        n.stop = p.text.length ∧
        n.label = .charClass (ClassItem.classText negated texts)
          ⟨negated, false, items.any ClassItem.isPosix⟩ n.chars ∧
        ∀ c ≤ maxCodePoint, (n.chars.contains c = true ↔
          (UpToCase (ignoreCase = true) (fun d => ∃ item ∈ items, item.Holds d) c ↔
            negated = false))) ∧
    ((∃ item ∈ items, ¬ item.Ordered) →
      ∃ lo hi position, .range lo hi ∈ items ∧ hi < lo ∧
        Pattern.parse (caseFlags ignoreCase ++ ClassItem.classText negated texts) =
          .error (.malformed ⟨.reversedRange lo hi, position,
            caseFlags ignoreCase ++ ClassItem.classText negated texts⟩)) := by
  constructor
  case left =>
    intro hordered
    set source := ClassItem.classText negated texts with hsource
    have hread : Bracket.read ⟨ignoreCase, false, false⟩
        ⟨(caseFlags ignoreCase).length, source⟩ = _ :=
      Bracket.read_items hwritten hne hordered hsource _
    rw [Cursor.advance, ← hsource, List.drop_length] at hread
    obtain ⟨p, n, hp, honly, hroot, hstart, hstop, hlabel, hchars⟩ := exists_parse_class rfl hread
    refine ⟨p, n, hp, honly, hroot, hstart, hstop, hlabel, fun c hc => ?_⟩
    -- only the closure under case and the complement are left
    rw [hchars, Bracket.contains_closed (CharSet.isCanonical_unionAll _) hc,
      UpToCase.congr hc fun d hd => contains_unionAll_chars hwritten hd]
  case right =>
    intro hreversed
    set source := ClassItem.classText negated texts with hsource
    have hrest : (beforeClass ignoreCase source).cur.rest = source := by rw [cur_beforeClass]
    obtain ⟨lo, hi, position, hmem, hlt, hread⟩ := Bracket.read_reversed hwritten hreversed
      (hrest.trans hsource) (beforeClass ignoreCase source).frame.modes
    have hstep : (beforeClass ignoreCase source).step '[' =
        .error (.fault (.reversedRange lo hi) position) := by
      rw [step_bracket hrest, readBracket, hread]
      rfl
    exact ⟨lo, hi, position, hmem, hlt, parse_of_step_error runsTo_beforeClass hrest hstep⟩

/-- `k` to `m` and a dash, negated without regard to case; and the same range
    in the wrong order. -/
theorem class_denotes_of_range :
    (∃ p n, Pattern.parse "(?i)[^k-m\\x\x7b2D\x7d]".toList = .ok p ∧ n ∈ p.root.preorder ∧
      n.label = .charClass "[^k-m\\x\x7b2D\x7d]".toList ⟨true, false, false⟩ n.chars ∧
      n.chars.contains 'j'.toNat = true ∧ ¬ n.chars.contains 'L'.toNat = true ∧
      ¬ n.chars.contains '-'.toNat = true) ∧
    ∃ e, Pattern.parse "[m-k]".toList = .error (.malformed e) := by
  have hitems : List.Forall₂ ClassItem.WrittenAs
      [.range 'k'.toNat 'm'.toNat, .char (Escape.valueIn 16 ['2', 'D'])]
      [['k', '-', 'm'], ['\\', 'x', '\x7b', '2', 'D', '\x7d']] :=
    .cons (.range (.raw (by decide)) (.raw (by decide)))
      (.cons (.char (.hex (by decide) (List.all_eq_true.mp rfl) (by decide +kernel))) .nil)
  have hreversed : List.Forall₂ ClassItem.WrittenAs
      [.range 'm'.toNat 'k'.toNat] [['m', '-', 'k']] :=
    .cons (.range (.raw (by decide)) (.raw (by decide))) .nil
  obtain ⟨p, n, hp, honly, -, -, -, hlabel, hchars⟩ :=
    (class_denotes (List.cons_ne_nil _ _) hitems true true).1 (by simp [ClassItem.Ordered])
  obtain ⟨lo, hi, position, -, -, herror⟩ :=
    (class_denotes (List.cons_ne_nil _ _) hreversed false false).2
      ⟨_, List.mem_cons_self, by simp [ClassItem.Ordered]⟩
  -- the only class of the pattern is one of its nodes
  have hn : n ∈ p.root.preorder := by
    have hmem : n ∈ [n] := List.mem_cons_self
    rw [← honly] at hmem
    exact List.mem_of_mem_filter hmem
  refine ⟨⟨p, n, hp, hn, hlabel, ?_, ?_, ?_⟩, _, herror⟩
  all_goals
    rw [hchars _ (by decide +kernel)]
    simp [UpToCase, ClassItem.Holds, otherCase?, Escape.valueIn, Escape.hexValue?]

end Pattern

end RegexInsight
