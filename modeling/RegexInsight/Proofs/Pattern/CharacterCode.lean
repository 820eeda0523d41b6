import Mathlib
import RegexInsight.Proofs.Pattern.ClassText
import RegexInsight.Proofs.Pattern.Members

/-! # Character codes

    A character can be written by its number: in hexadecimal digits, which
    stand in braces or are as many as the letter in front of them asks for,
    or in three octal digits.  Zeros in front and the case of the digits make
    no difference.  All readers turn digits into numbers by one function,
    which undoes the writing of a number; what is left of each reader is how
    many digits it takes. -/

namespace RegexInsight

/-! ## Section 1: Numerals -/

/-- The digits of a number in a base, behind any number of zeros and in
    letters of either case. -/
def IsNumeral (base n : Nat) (digits : Text) : Prop :=
  ∃ zeros, digits.map Char.toLower = List.replicate zeros '0' ++ Nat.toDigits base n

/-- The letters in front of digits that stand in no braces, with the number
    of those digits. -/
def fixedWidths : List (Char × Nat) :=
  [('x', 2), ('u', 4), ('U', 8)]

/-- Hexadecimal digits in braces. -/
def bracedCode (digits : Text) : Text :=
  '\\' :: 'x' :: '\x7b' :: (digits ++ ['\x7d'])

/-- The ways to write a character by its number. -/
inductive CodePoint.NumberedAs (c : CodePoint) : Text → Prop where
  | braced {digits : Text} (h : IsNumeral 16 c digits) : NumberedAs c (bracedCode digits)
  | fixed {letter : Char} {digits : Text} (hletter : (letter, digits.length) ∈ fixedWidths)
      (h : IsNumeral 16 c digits) : NumberedAs c ('\\' :: letter :: digits)
  | octal {digits : Text} (hlength : digits.length = 3) (hle : c ≤ 0o377)
      (h : IsNumeral 8 c digits) : NumberedAs c ('\\' :: digits)

theorem CodePoint.NumberedAs.exists_cons {c : CodePoint} {text : Text} (h : c.NumberedAs text) :
    ∃ rest, text = '\\' :: rest := by
  cases h <;> exact ⟨_, rfl⟩

/-- The digits of a number are those of the base. -/
theorem exists_digitChar_of_mem_toDigits {base n : Nat} (hbase : 1 < base) {d : Char}
    (h : d ∈ Nat.toDigits base n) : ∃ k < base, d = k.digitChar := by
  induction n using Nat.strong_induction_on with
  | _ n ih =>
    by_cases hsmall : n < base
    · rw [Nat.toDigits_of_lt_base hsmall, List.mem_singleton] at h
      exact ⟨n, hsmall, h⟩
    · have hle : base ≤ n := Nat.not_lt.mp hsmall
      rw [Nat.toDigits_of_base_le hbase hle, List.mem_append, List.mem_singleton] at h
      rcases h with h | h
      · exact ih (n / base) (Nat.div_lt_self (by omega) hbase) h
      · exact ⟨n % base, Nat.mod_lt n (by omega), h⟩

/-- What is said of lower case letters by their upper case holds of all
    characters. -/
theorem apply_toLower {α : Type} {f : Char → α}
    (hupper : ∀ k < 26, f (Char.ofNat (65 + k)).toLower = f (Char.ofNat (65 + k))) (c : Char) :
    f c.toLower = f c := by
  by_cases h : c.val ≥ 'A'.val ∧ c.val ≤ 'Z'.val
  · have hlo : 65 ≤ c.toNat := h.1
    have hhi : c.toNat ≤ 90 := h.2
    have hk := hupper (c.toNat - 65) (by omega)
    rwa [Nat.add_sub_cancel' hlo, Char.ofNat_toNat] at hk
  · rw [Char.toLower, dif_neg h]

namespace IsNumeral

variable {base n : Nat} {digits : Text}

/-- What holds of the digits of a base, in lower case, holds of a numeral. -/
theorem forall_mem (h : IsNumeral base n digits) (hbase : 1 < base) {p : Char → Bool}
    (hlower : ∀ c : Char, p c.toLower = p c) (hdigit : ∀ k < base, p k.digitChar = true) :
    ∀ d ∈ digits, p d = true := by
  obtain ⟨zeros, hzeros⟩ := h
  intro d hd
  have hmem := List.mem_map_of_mem (f := Char.toLower) hd
  rw [hzeros, List.mem_append, List.mem_replicate] at hmem
  rw [← hlower d]
  rcases hmem with ⟨-, h⟩ | h
  · rw [h]
    exact hdigit 0 (by omega)
  · obtain ⟨k, hk, h⟩ := exists_digitChar_of_mem_toDigits hbase h
    rw [h]
    exact hdigit k hk

theorem ne_nil (h : IsNumeral base n digits) : digits ≠ [] := by
  obtain ⟨zeros, hzeros⟩ := h
  rintro rfl
  have hnil := (List.append_eq_nil_iff.mp hzeros.symm).2
  exact Nat.toDigits_ne_nil hnil

end IsNumeral

/-- Every number has a numeral of any width that is great enough. -/
theorem exists_isNumeral {base n width : Nat} (hbase : 1 < base) (hle : base ≤ 16)
    (hwidth : 0 < width) (hn : n < base ^ width) :
    ∃ digits, digits.length = width ∧ IsNumeral base n digits := by
  have hlower : ∀ k < 16, k.digitChar.toLower = k.digitChar := by decide
  -- zeros fill up the width
  have hlength := (Nat.length_toDigits_le_iff hbase hwidth).mpr hn
  refine ⟨List.replicate (width - (Nat.toDigits base n).length) '0' ++ Nat.toDigits base n, ?_,
    width - (Nat.toDigits base n).length, ?_⟩
  · rw [List.length_append, List.length_replicate]
    omega
  · have hdigits : (Nat.toDigits base n).map Char.toLower = Nat.toDigits base n := by
      refine (List.map_congr_left fun d hd => ?_).trans (List.map_id _)
      obtain ⟨k, hk, rfl⟩ := exists_digitChar_of_mem_toDigits hbase hd
      exact hlower k (by omega)
    rw [List.map_append, hdigits, List.map_replicate]
    rfl

namespace Escape

/-! ## Section 2: Values -/

theorem hexValue?_digitChar : ∀ k < 16, hexValue? k.digitChar = some k := by
  decide

theorem isHex_of_isNumeral {n : Nat} {digits : Text} (h : IsNumeral 16 n digits) :
    ∀ d ∈ digits, isHex d = true :=
  h.forall_mem (by decide) (apply_toLower (by decide)) (by decide)

theorem isOctal_of_isNumeral {n : Nat} {digits : Text} (h : IsNumeral 8 n digits) :
    ∀ d ∈ digits, isOctal d = true :=
  h.forall_mem (by decide) (apply_toLower (by decide)) (by decide)

theorem valueIn_append (base : Nat) (digits : Text) (d : Char) :
    valueIn base (digits ++ [d]) = base * valueIn base digits + (hexValue? d).getD 0 := by
  rw [valueIn, List.foldl_append]
  rfl

theorem valueIn_map_toLower (base : Nat) (digits : Text) :
    valueIn base (digits.map Char.toLower) = valueIn base digits := by
  have hvalue : ∀ c : Char, hexValue? c.toLower = hexValue? c := apply_toLower (by decide)
  simp only [valueIn, List.foldl_map, hvalue]

theorem valueIn_replicate_append (base zeros : Nat) (digits : Text) :
    valueIn base (List.replicate zeros '0' ++ digits) = valueIn base digits := by
  have hzero : (hexValue? '0').getD 0 = 0 := rfl
  induction zeros with
  | zero => rfl
  | succ zeros ih =>
    rw [List.replicate_succ, List.cons_append, valueIn, List.foldl_cons, hzero, Nat.mul_zero]
    exact ih

theorem valueIn_toDigits {base : Nat} (hbase : 1 < base) (hle : base ≤ 16) (n : Nat) :
    valueIn base (Nat.toDigits base n) = n := by
  induction n using Nat.strong_induction_on with
  | _ n ih =>
    by_cases hsmall : n < base
    · rw [Nat.toDigits_of_lt_base hsmall]
      simp [valueIn, hexValue?_digitChar n (by omega)]
    · have hge : base ≤ n := Nat.not_lt.mp hsmall
      have hlast : n % base < base := Nat.mod_lt n (by omega)
      rw [Nat.toDigits_of_base_le hbase hge, valueIn_append,
        ih (n / base) (Nat.div_lt_self (by omega) hbase), hexValue?_digitChar _ (by omega)]
      exact Nat.div_add_mod n base

/-- A numeral is read as its number. -/
theorem valueIn_of_isNumeral {base n : Nat} {digits : Text} (hbase : 1 < base) (hle : base ≤ 16)
    (h : IsNumeral base n digits) : valueIn base digits = n := by
  obtain ⟨zeros, hzeros⟩ := h
  rw [← valueIn_map_toLower, hzeros, valueIn_replicate_append, valueIn_toDigits hbase hle]

/-! ## Section 3: Digits of a code -/

variable {modes : Modes} {groups start n : Nat} {cur : Cursor} {digits tail : Text}

theorem hexDigits?_braced (h : ∀ d ∈ digits, isHex d = true)
    (hrest : cur.rest = '\x7b' :: (digits ++ '\x7d' :: tail)) :
    hexDigits? 'x' 2 cur = some (digits, cur.advance (digits.length + 2)) := by
  have hbrace : '\x7d' ∉ digits := fun hmem => absurd (h _ hmem) (by decide)
  have hbehind : (cur.advance 1).rest = digits ++ '\x7d' :: tail := by
    rw [Cursor.advance_rest, hrest]
    rfl
  have hfound : (cur.advance 1).upTo? '\x7d' = some (digits, cur.advance (digits.length + 2)) := by
    refine Cursor.upTo?_eq_some_iff.mpr ⟨hbrace, ⟨tail, hbehind⟩, ?_⟩
    rw [Cursor.advance_advance]
    congr 1
    omega
  simp [hexDigits?, hrest, hfound]

theorem hexDigits?_fixed {letter : Char} (h : ∀ d ∈ digits, isHex d = true)
    (hrest : cur.rest = digits ++ tail) (hsome : digits ≠ []) :
    hexDigits? letter digits.length cur = some (digits, cur.advance digits.length) := by
  -- the first digit is no brace
  have hopen : cur.rest.head? ≠ some '\x7b' := by
    obtain ⟨d, rest, rfl⟩ := List.exists_cons_of_ne_nil hsome
    rw [hrest]
    rintro hhead
    obtain rfl := Option.some.inj hhead
    exact absurd (h _ List.mem_cons_self) (by decide)
  have hclosed : ¬ (letter == 'x' && cur.rest.head? == some '\x7b') = true := by simp [hopen]
  simp only [hexDigits?, if_neg hclosed]
  simp [hrest]

/-- The number of a code that is too great is a fault. -/
theorem readHex_of_digits {letter : Char} {width : Nat} {after : Cursor} (hsome : digits ≠ [])
    (hhex : ∀ d ∈ digits, isHex d = true)
    (hdigits : hexDigits? letter width cur = some (digits, after)) :
    readHex start letter width cur =
      if valueIn 16 digits > maxCodePoint then .fail (.hexOutOfRange letter digits) start
      else .ok (valueIn 16 digits, after) := by
  have hall : ¬ (digits.isEmpty || !digits.all isHex) = true := by simpa [hsome] using hhex
  simp only [readHex, hdigits, if_neg hall]

theorem hexValue_of_isNumeral (h : IsNumeral 16 n digits) : valueIn 16 digits = n :=
  valueIn_of_isNumeral (by decide) (by decide) h

theorem octalCode_of_isNumeral (start : Nat) (h : IsNumeral 8 n digits) :
    octalCode start digits =
      if n > 0o377 then .fail (.octalOutOfRange digits) start else .ok n := by
  rw [octalCode, valueIn_of_isNumeral (by decide) (by decide) h]

/-! ## Section 4: Readers -/

variable {c : CodePoint} {text : Text}

theorem hexWidth?_of_mem {letter : Char} {width : Nat} (h : (letter, width) ∈ fixedWidths) :
    hexWidth? letter = some width := by
  simp only [fixedWidths, List.mem_cons, List.not_mem_nil, or_false, Prod.mk.injEq] at h
  rcases h with ⟨rfl, rfl⟩ | ⟨rfl, rfl⟩ | ⟨rfl, rfl⟩ <;> rfl

theorem mem_of_hexWidth? {letter : Char} {width : Nat} (h : hexWidth? letter = some width) :
    letter = 'x' ∨ letter = 'u' ∨ letter = 'U' := by
  unfold hexWidth? at h
  split at h <;> simp at h ⊢

def octalDigits : List Char := ['0', '1', '2', '3', '4', '5', '6', '7']

theorem mem_octalDigits {d : Char} (h : isOctal d = true) : d ∈ octalDigits := by
  have hall : ∀ k < 8, Char.ofNat (48 + k) ∈ octalDigits := by decide
  simp only [isOctal, Bool.and_eq_true, decide_eq_true_eq] at h
  have hlo : 48 ≤ d.toNat := h.1
  have hhi : d.toNat ≤ 55 := h.2
  have hd := hall (d.toNat - 48) (by omega)
  rwa [Nat.add_sub_cancel' hlo, Char.ofNat_toNat] at hd

theorem read_hex {letter : Char} {width : Nat} {behind : Text}
    (hletter : hexWidth? letter = some width) (hrest : cur.rest = '\\' :: letter :: behind) :
    Escape.read modes groups cur = (do
      let (code, stop) ← readHex cur.pos letter width (cur.advance 2)
      return (.leaf (modes.literal code) cur.pos (cur.advance 2).pos, stop)) := by
  unfold Escape.read
  rw [hrest]
  rcases mem_of_hexWidth? hletter with rfl | rfl | rfl <;>
    obtain rfl := Option.some.inj hletter <;> rfl

theorem readAtom_hex {letter : Char} {width : Nat} {behind : Text}
    (hletter : hexWidth? letter = some width) (hrest : cur.rest = '\\' :: letter :: behind) :
    Bracket.readAtom cur = (do
      let (code, stop) ← readHex cur.pos letter width (cur.advance 2)
      return (.char code, stop)) := by
  unfold Bracket.readAtom
  rw [hrest]
  rcases mem_of_hexWidth? hletter with rfl | rfl | rfl <;>
    obtain rfl := Option.some.inj hletter <;> rfl

theorem readOctal_three {d e f : Char} (he : isOctal e = true) (hf : isOctal f = true)
    (hrest : cur.rest = e :: f :: tail) :
    readOctal start d cur = (do
      let code ← octalCode start [d, e, f]
      return (code, cur.advance 2)) := by
  have hmore : (cur.rest.take 2).takeWhile isOctal = [e, f] := by simp [hrest, he, hf]
  rw [readOctal, hmore]
  rfl

theorem readNumbered_three {d e f : Char} (hd : isOctal d = true) (he : isOctal e = true)
    (hf : isOctal f = true) (hrest : cur.rest = e :: f :: tail) :
    readNumbered modes start d cur = (do
      let code ← octalCode start [d, e, f]
      return (.leaf (modes.literal code) start (cur.advance 2).pos, cur.advance 2)) := by
  have hdigit : ∀ {x : Char}, isOctal x = true → isDigitChar x = true := by
    intro x hx
    simp only [isOctal, Bool.and_eq_true, decide_eq_true_eq] at hx
    refine isDigitChar_of_isDecimal (isDecimal_of_isDigit (Char.isDigit_iff_toNat.mpr ⟨hx.1, ?_⟩))
    exact Nat.le_trans hx.2 (by decide)
  have hmore : (cur.rest.take 2).takeWhile isDigitChar = [e, f] := by
    simp [hrest, hdigit he, hdigit hf]
  have hthree : ([d, e, f].length == 3 && [d, e, f].all isOctal) = true := by simp [hd, he, hf]
  simp only [readNumbered, hmore, hthree, if_true]
  rfl

/-- Three octal digits outside a class: a zero begins a code, and another
    digit would refer to a group if fewer digits followed. -/
theorem read_octal {d e f : Char} (hd : isOctal d = true) (he : isOctal e = true)
    (hf : isOctal f = true) (hrest : cur.rest = '\\' :: d :: e :: f :: tail) :
    ∃ stop, Escape.read modes groups cur = (do
      let code ← octalCode cur.pos [d, e, f]
      return (.leaf (modes.literal code) cur.pos stop, cur.advance 4)) := by
  have hbehind : (cur.advance 2).rest = e :: f :: tail := by
    rw [Cursor.advance_rest, hrest]
    rfl
  by_cases hzero : d = '0'
  · -- the leaf of a code that begins with a zero ends behind that zero
    refine ⟨(cur.advance 2).pos, ?_⟩
    have hread : Escape.read modes groups cur = (do
        let (code, stop) ← readOctal cur.pos d (cur.advance 2)
        return (.leaf (modes.literal code) cur.pos (cur.advance 2).pos, stop)) := by
      rw [hzero] at hrest ⊢
      simp only [Escape.read, hrest]
      rfl
    rw [hread, readOctal_three he hf hbehind, bind_assoc, Cursor.advance_advance]
    rfl
  · refine ⟨(cur.advance 4).pos, ?_⟩
    have hread : Escape.read modes groups cur = readNumbered modes cur.pos d (cur.advance 2) := by
      have hmem := List.mem_of_ne_of_mem hzero (mem_octalDigits hd)
      simp only [List.mem_cons, List.not_mem_nil, or_false] at hmem
      simp only [Escape.read, hrest]
      rcases hmem with rfl | rfl | rfl | rfl | rfl | rfl | rfl <;> rfl
    rw [hread, readNumbered_three hd he hf hbehind, Cursor.advance_advance]

theorem readAtom_octal {d e f : Char} (hd : isOctal d = true) (he : isOctal e = true)
    (hf : isOctal f = true) (hrest : cur.rest = '\\' :: d :: e :: f :: tail) :
    Bracket.readAtom cur = (do
      let code ← octalCode cur.pos [d, e, f]
      return (.char code, cur.advance 4)) := by
  have hbehind : (cur.advance 2).rest = e :: f :: tail := by
    rw [Cursor.advance_rest, hrest]
    rfl
  have hread : Bracket.readAtom cur = (do
      let (code, stop) ← readOctal cur.pos d (cur.advance 2)
      return (.char code, stop)) := by
    have hmem := mem_octalDigits hd
    simp only [octalDigits, List.mem_cons, List.not_mem_nil, or_false] at hmem
    unfold Bracket.readAtom
    rw [hrest]
    rcases hmem with rfl | rfl | rfl | rfl | rfl | rfl | rfl | rfl <;> rfl
  rw [hread, readOctal_three he hf hbehind, bind_assoc, Cursor.advance_advance]
  rfl

/-- Digits in braces behind `x`. -/
theorem readHex_braced (start : Nat) (hsome : digits ≠ []) (hhex : ∀ d ∈ digits, isHex d = true)
    (hrest : cur.rest = bracedCode digits ++ tail) :
    readHex start 'x' 2 (cur.advance 2) =
      if valueIn 16 digits > maxCodePoint then .fail (.hexOutOfRange 'x' digits) start
      else .ok (valueIn 16 digits, cur.advance (bracedCode digits).length) := by
  have hbehind : (cur.advance 2).rest = '\x7b' :: (digits ++ '\x7d' :: tail) := by
    simp [hrest, bracedCode]
  have hstop : (cur.advance 2).advance (digits.length + 2) =
      cur.advance (bracedCode digits).length := by
    simp only [Cursor.advance_advance, bracedCode, List.length_cons, List.length_append,
      List.length_nil]
    congr 1
    omega
  rw [readHex_of_digits hsome hhex (hexDigits?_braced hhex hbehind), hstop]

/-- As many digits as the letter asks for. -/
theorem readHex_fixed (start : Nat) {letter : Char} (hsome : digits ≠ [])
    (hhex : ∀ d ∈ digits, isHex d = true) (hrest : cur.rest = '\\' :: letter :: digits ++ tail) :
    readHex start letter digits.length (cur.advance 2) =
      if valueIn 16 digits > maxCodePoint then .fail (.hexOutOfRange letter digits) start
      else .ok (valueIn 16 digits, cur.advance ('\\' :: letter :: digits).length) := by
  have hbehind : (cur.advance 2).rest = digits ++ tail := by simp [hrest]
  have hstop : (cur.advance 2).advance digits.length =
      cur.advance ('\\' :: letter :: digits).length := by
    simp only [Cursor.advance_advance, List.length_cons]
    congr 1
    omega
  rw [readHex_of_digits hsome hhex (hexDigits?_fixed hhex hbehind hsome), hstop]

/-- The digits of a code are read up to its end, in and outside a class. -/
theorem read_numberedAs (modes : Modes) (groups : Nat) (h : c.NumberedAs text)
    (hc : c ≤ maxCodePoint) (hrest : cur.rest = text ++ tail) :
    (∃ stop, Escape.read modes groups cur =
      .ok (.leaf (modes.literal c) cur.pos stop, cur.advance text.length)) ∧
    Bracket.readAtom cur = .ok (.char c, cur.advance text.length) := by
  -- each way to write a number is read by its own reader
  cases h with
  | braced h =>
    have hhex := readHex_braced cur.pos h.ne_nil (isHex_of_isNumeral h) hrest
    rw [hexValue_of_isNumeral h, if_neg (Nat.not_lt.mpr hc)] at hhex
    rw [read_hex rfl hrest, readAtom_hex rfl hrest, hhex]
    exact ⟨⟨_, rfl⟩, rfl⟩
  | fixed hletter h =>
    have hhex := readHex_fixed cur.pos h.ne_nil (isHex_of_isNumeral h) hrest
    rw [hexValue_of_isNumeral h, if_neg (Nat.not_lt.mpr hc)] at hhex
    have hwidth := hexWidth?_of_mem hletter
    rw [read_hex hwidth hrest, readAtom_hex hwidth hrest, hhex]
    exact ⟨⟨_, rfl⟩, rfl⟩
  | octal hlength hle h =>
    obtain ⟨d, e, f, rfl⟩ := List.length_eq_three.mp hlength
    obtain ⟨hd, he, hf⟩ : isOctal d = true ∧ isOctal e = true ∧ isOctal f = true := by
      simpa using isOctal_of_isNumeral h
    have hcode := octalCode_of_isNumeral cur.pos h
    rw [if_neg (Nat.not_lt.mpr hle)] at hcode
    obtain ⟨stop, hread⟩ := read_octal hd he hf hrest
    rw [hread, readAtom_octal hd he hf hrest, hcode]
    exact ⟨⟨stop, rfl⟩, rfl⟩

/-- A number in braces that is no code point is rejected everywhere. -/
theorem read_braced_of_gt (modes : Modes) (groups : Nat) (h : IsNumeral 16 n digits)
    (hn : maxCodePoint < n) (hrest : cur.rest = bracedCode digits ++ tail) :
    Escape.read modes groups cur = .error (.fault (.hexOutOfRange 'x' digits) cur.pos) ∧
    Bracket.readAtom cur = .error (.fault (.hexOutOfRange 'x' digits) cur.pos) := by
  have hhex := readHex_braced cur.pos h.ne_nil (isHex_of_isNumeral h) hrest
  rw [hexValue_of_isNumeral h, if_pos hn] at hhex
  rw [read_hex rfl hrest, readAtom_hex rfl hrest, hhex]
  exact ⟨rfl, rfl⟩

/-- Three octal digits have to denote a byte. -/
theorem read_octal_of_gt (modes : Modes) (groups : Nat) (h : IsNumeral 8 n digits)
    (hlength : digits.length = 3) (hn : 0o377 < n) (hrest : cur.rest = '\\' :: digits ++ tail) :
    Escape.read modes groups cur = .error (.fault (.octalOutOfRange digits) cur.pos) := by
  obtain ⟨d, e, f, rfl⟩ := List.length_eq_three.mp hlength
  obtain ⟨hd, he, hf⟩ : isOctal d = true ∧ isOctal e = true ∧ isOctal f = true := by
    simpa using isOctal_of_isNumeral h
  obtain ⟨stop, hread⟩ := read_octal hd he hf hrest
  have hcode := octalCode_of_isNumeral cur.pos h
  rw [if_pos hn] at hcode
  rw [hread, hcode]
  rfl

end Escape

/-! ## Section 5: Patterns -/

/-- The text of a class with one member. -/
def bracketed (text : Text) : Text :=
  '[' :: (text ++ [']'])

namespace Bracket

variable {cur : Cursor} {text tail : Text} {start fuel : Nat} {members : Members}

/-- At a backslash, the next member is no POSIX class. -/
theorem readMembers_of_backslash (hrest : cur.rest = '\\' :: tail) :
    readMembers start (fuel + 1) true members cur = (do
      let ((chars, isProperty), after) ← readItem cur
      readMembers start fuel false
        { members with
          sets := chars :: members.sets
          hasProperty := members.hasProperty || isProperty } after) := by
  have hname : posixName? cur = none := by
    unfold posixName?
    rw [hrest]
    rfl
  exact readMembers_member (by simp [hrest]) (.inl rfl) hname start fuel members

/-- Behind the bracket of a class with one member stands that member. -/
theorem opensWith_bracketed (text : Text) :
    OpensWith (.ofText (bracketed ('\\' :: text))) false 1 ∧
      (Cursor.ofText (bracketed ('\\' :: text))).advance 1 = ⟨1, '\\' :: text ++ [']']⟩ :=
  ⟨⟨rfl, rfl⟩, rfl⟩

/-- A class in which one character is spelled has that character. -/
theorem denotes_bracketed {c : CodePoint}
    (hatom : readAtom ⟨1, '\\' :: text ++ [']']⟩ =
      .ok (.char c, ⟨1 + ('\\' :: text).length, [']']⟩)) :
    Denotes (bracketed ('\\' :: text)) .plain (.single c) := by
  obtain ⟨hopens, hinside⟩ := opensWith_bracketed text
  -- the member is no end of a range, and the bracket behind it ends the class
  have hdash : '-' ∉ [']'].head? := by decide
  have hitem := readItem_of_no_range hatom (.inr hdash)
  refine ⟨rfl, CharSet.isCanonical_single c, fun modes => ?_⟩
  have hlength : 1 + ('\\' :: text).length + 1 = (bracketed ('\\' :: text)).length := by
    simp only [bracketed, List.length_cons, List.length_append, List.length_nil]
    omega
  have hunion : CharSet.unionAll [.single c] = .single c := by
    simp [CharSet.unionAll, CharSet.single, CharSet.ofPoints, CharSet.ofIntervals,
      CharSet.fuseAll, CharSet.fuse]
  have hmembers : readMembers 0 (('\\' :: text ++ [']']).length + 1) true ⟨[], false, false⟩
      ⟨1, '\\' :: text ++ [']']⟩ =
        .ok (⟨[.single c], false, false⟩, ⟨(bracketed ('\\' :: text)).length, []⟩) := by
    rw [readMembers_of_backslash rfl, hitem, ← hlength]
    rfl
  rw [hopens.read_eq, hinside]
  refine Read.bind_eq_ok.mpr ⟨_, hmembers, ?_⟩
  simp only [List.reverse_singleton, hunion, Cursor.ofText, Nat.sub_zero, List.take_length]
  rfl

/-- A class with a member that cannot be read is not read either. -/
theorem read_bracketed_error {e : ReadError} {modes : Modes}
    (hatom : readAtom ⟨1, '\\' :: text ++ [']']⟩ = .error e) :
    Bracket.read modes (.ofText (bracketed ('\\' :: text))) = .error e := by
  obtain ⟨hopens, hinside⟩ := opensWith_bracketed text
  have hitem : readItem ⟨1, '\\' :: text ++ [']']⟩ = .error e := by
    rw [readItem, hatom]
    rfl
  rw [hopens.read_eq, hinside, readMembers_of_backslash rfl, hitem]
  rfl

end Bracket

namespace Pattern

open ParserState

variable {text rest digits : Text} {c : CodePoint} {n : Nat}

/-- An escape that is read as one leaf up to the end is the whole pattern. -/
theorem parse_escape {label : Label} {stop : Nat} (htext : text = '\\' :: rest)
    (hread : Escape.read .none 0 (.ofText text) =
      .ok (.leaf label 0 stop, (Cursor.ofText text).advance text.length)) :
    Pattern.parse text = .ok ⟨text, .build 0 label 0 stop [], 0, []⟩ := by
  have hcur : (initial text).cur.rest = '\\' :: rest := htext
  have hstep : (initial text).step '\\' = .ok (((initial text).addLeaf ⟨label, 0, stop⟩).moveTo
      ((Cursor.ofText text).advance text.length)) := by
    rw [step_of_not_skipped (skipped?_eq_none hcur (by decide) (by decide)), readAt_escape hcur]
    exact Read.bind_eq_ok.mpr ⟨_, hread, rfl⟩
  refine Pattern.parse_eq_ok_iff.mpr ⟨_, _, .single ⟨'\\', rest, hcur, hstep⟩, ?_, ?_, rfl⟩
  · exact List.drop_length
  · exact finish_eq_ok_iff.mpr ⟨rfl, ⟨1, rfl⟩, rfl⟩

/-- An escape that cannot be read is a fault of the pattern. -/
theorem parse_escape_error {e : ReadError} (htext : text = '\\' :: rest)
    (hread : Escape.read .none 0 (.ofText text) = .error e) :
    Pattern.parse text = .error (failure text e) := by
  have hcur : (initial text).cur.rest = '\\' :: rest := htext
  refine parse_of_step_error .refl hcur ?_
  rw [step_of_not_skipped (skipped?_eq_none hcur (by decide) (by decide)), readAt_escape hcur,
    readEscape]
  show (Escape.read .none 0 (.ofText text) >>= _) = _
  rw [hread]
  rfl

/-- So is one in a class. -/
theorem parse_bracketed_error {e : ReadError}
    (hatom : Bracket.readAtom ⟨1, '\\' :: text ++ [']']⟩ = .error e) :
    Pattern.parse (bracketed ('\\' :: text)) =
      .error (failure (bracketed ('\\' :: text)) e) := by
  have hcur : (initial (bracketed ('\\' :: text))).cur.rest =
      '[' :: ('\\' :: text ++ [']']) := rfl
  refine parse_of_step_error .refl hcur ?_
  rw [step_bracket hcur, readBracket]
  show (Bracket.read .none (.ofText (bracketed ('\\' :: text))) >>= _) = _
  rw [Bracket.read_bracketed_error hatom]
  rfl

/-- A number denotes a character however it is written, as a literal and as
    the only member of a class, and every character for which a width is
    great enough can be written in it.  A number that is too great for a code
    point, or for three octal digits, is rejected. -/
theorem parse_characterCode :
    (∀ c ≤ maxCodePoint,
      (∀ text, c.NumberedAs text →
        (∃ stop, Pattern.parse text =
          .ok ⟨text, .build 0 (.literal c (.single c)) 0 stop [], 0, []⟩) ∧
        Pattern.parse (bracketed text) = .ok ⟨bracketed text,
          .build 0 (.charClass (bracketed text) .plain (.single c)) 0 (bracketed text).length [],
          0, []⟩) ∧
      (∀ letter width, (letter, width) ∈ fixedWidths → c < 16 ^ width →
        ∃ digits, digits.length = width ∧ IsNumeral 16 c digits) ∧
      (c ≤ 0o377 → ∃ digits, digits.length = 3 ∧ IsNumeral 8 c digits)) ∧
    (∀ n > maxCodePoint, ∀ digits, IsNumeral 16 n digits →
      Pattern.parse (bracedCode digits) =
        .error (.malformed ⟨.hexOutOfRange 'x' digits, 0, bracedCode digits⟩) ∧
      Pattern.parse (bracketed (bracedCode digits)) =
        .error (.malformed ⟨.hexOutOfRange 'x' digits, 1, bracketed (bracedCode digits)⟩)) ∧
    (∀ n > 0o377, ∀ digits, digits.length = 3 → IsNumeral 8 n digits →
      Pattern.parse ('\\' :: digits) =
        .error (.malformed ⟨.octalOutOfRange digits, 0, '\\' :: digits⟩)) := by
  refine ⟨fun c hc => ⟨fun text htext => ?code, fun letter width hwidth hlt => ?width,
    fun hle => ?three⟩, fun n hn digits hdigits => ?hex, fun n hn digits hlength hdigits => ?octal⟩
  case code =>
    obtain ⟨rest, rfl⟩ := htext.exists_cons
    have halone : (Cursor.ofText ('\\' :: rest)).rest = '\\' :: rest ++ [] :=
      (List.append_nil _).symm
    -- in a class, the same text stands one character further on
    have hinside : (Cursor.mk 1 ('\\' :: rest ++ [']'])).rest = '\\' :: rest ++ [']'] := rfl
    obtain ⟨⟨stop, hread⟩, -⟩ := Escape.read_numberedAs .none 0 htext hc halone
    obtain ⟨-, hatom⟩ := Escape.read_numberedAs .none 0 htext hc hinside
    rw [Cursor.advance, List.drop_left] at hatom
    exact ⟨⟨stop, parse_escape rfl hread⟩, parse_class (Bracket.denotes_bracketed hatom)⟩
  case width =>
    have hsome : 0 < width := by
      have hall : ∀ entry ∈ fixedWidths, 0 < entry.2 := by decide
      exact hall _ hwidth
    exact exists_isNumeral (by decide) (by decide) hsome hlt
  case three =>
    exact exists_isNumeral (by decide) (by decide) (by decide) (Nat.lt_of_le_of_lt hle (by decide))
  case hex =>
    have halone : (Cursor.ofText (bracedCode digits)).rest = bracedCode digits ++ [] :=
      (List.append_nil _).symm
    have hinside : (Cursor.mk 1 (bracedCode digits ++ [']'])).rest = bracedCode digits ++ [']'] :=
      rfl
    obtain ⟨hread, -⟩ := Escape.read_braced_of_gt .none 0 hdigits hn halone
    obtain ⟨-, hatom⟩ := Escape.read_braced_of_gt .none 0 hdigits hn hinside
    exact ⟨parse_escape_error rfl hread, parse_bracketed_error hatom⟩
  case octal =>
    have halone : (Cursor.ofText ('\\' :: digits)).rest = '\\' :: digits ++ [] :=
      (List.append_nil _).symm
    have hread := Escape.read_octal_of_gt .none 0 hdigits hlength hn halone
    exact parse_escape_error rfl hread

/-- The letter `J` in four digits and in braces, and the least numbers that
    are too great. -/
theorem parse_characterCode_of_letter :
    (∃ stop, Pattern.parse "\\u004A".toList =
      .ok ⟨"\\u004A".toList, .build 0 (.literal 0x4A (.single 0x4A)) 0 stop [], 0, []⟩) ∧
    Pattern.parse "[\\x\x7b04a\x7d]".toList = .ok ⟨"[\\x\x7b04a\x7d]".toList,
      .build 0 (.charClass "[\\x\x7b04a\x7d]".toList .plain (.single 0x4A)) 0 9 [], 0, []⟩ ∧
    (∃ e, Pattern.parse "\\x\x7b110000\x7d".toList = .error (.malformed e)) ∧
    ∃ e, Pattern.parse "\\400".toList = .error (.malformed e) := by
  obtain ⟨hcode, hhex, hoctal⟩ := parse_characterCode
  obtain ⟨hletter, -, -⟩ := hcode 0x4A (by decide)
  have hfour : IsNumeral 16 0x4A ['0', '0', '4', 'A'] := ⟨2, by decide⟩
  have hfixed : CodePoint.NumberedAs 0x4A "\\u004A".toList := .fixed (by decide) hfour
  have hlower : IsNumeral 16 0x4A ['0', '4', 'a'] := ⟨1, by decide⟩
  have hbraced : CodePoint.NumberedAs 0x4A "\\x\x7b04a\x7d".toList := .braced hlower
  have hgreat : IsNumeral 16 0x110000 ['1', '1', '0', '0', '0', '0'] := ⟨0, by decide⟩
  have hthree : IsNumeral 8 0o400 ['4', '0', '0'] := ⟨0, by decide⟩
  exact ⟨(hletter _ hfixed).1, (hletter _ hbraced).2, ⟨_, (hhex _ (by decide) _ hgreat).1⟩,
    _, hoctal _ (by decide) _ rfl hthree⟩

end Pattern

end RegexInsight
