import Mathlib
import RegexInsight.Text.Numeral
import RegexInsight.Unicode.Letter

/-! # Reading what was written

    Numbers are written in ASCII digits and read in the digits of any
    script.  What was written is read back as the same number, and a text
    of digits is a numeral exactly when all its digits are decimal and
    there are not too many of them. -/

namespace RegexInsight

/-! ## Section 1: ASCII digits -/

/-- The run of ASCII digits is the first run of the table. -/
theorem find?_decimalDigits {c : Char} (h : c.isDigit = true) :
    Unicode.decimalDigits.intervals.find? (·.contains c.toNat) = some ⟨0x30, 0x39⟩ := by
  obtain ⟨hlo, hhi⟩ := Char.isDigit_iff_toNat.mp h
  have hin : (⟨0x30, 0x39⟩ : Interval).contains c.toNat = true := by
    simp only [Interval.contains, Bool.and_eq_true, decide_eq_true_eq]
    exact ⟨hlo, hhi⟩
  exact List.find?_cons_of_pos hin

theorem decimalValue?_of_isDigit {c : Char} (h : c.isDigit = true) :
    decimalValue? c = some (c.toNat - '0'.toNat) := by
  obtain ⟨hlo, hhi⟩ := Char.isDigit_iff_toNat.mp h
  have hmod : (c.toNat - 0x30) % 10 = c.toNat - '0'.toNat := by
    refine Nat.mod_eq_of_lt ?_
    change c.toNat ≤ 57 at hhi
    omega
  simp only [decimalValue?, find?_decimalDigits h, Option.map_some, hmod]

theorem isDecimal_of_isDigit {c : Char} (h : c.isDigit = true) : isDecimal c = true := by
  have hfind := find?_decimalDigits h
  have hcontains : (⟨0x30, 0x39⟩ : Interval).contains c.toNat = true :=
    List.find?_some (p := fun i : Interval => i.contains c.toNat) hfind
  exact List.any_eq_true.mpr ⟨_, List.mem_of_find?_eq_some hfind, hcontains⟩

theorem isDigitChar_of_isDecimal {c : Char} (h : isDecimal c = true) : isDigitChar c = true := by
  simp [isDigitChar, h]

namespace Numeral

theorem isDecimal_of_mem_toDigits {n : Nat} {c : Char} (h : c ∈ Nat.toDigits 10 n) :
    isDecimal c = true :=
  isDecimal_of_isDigit (Nat.isDigit_of_mem_toDigits (by decide) (by decide) h)

theorem isDigitText_toDigits (n : Nat) : isDigitText (Nat.toDigits 10 n) = true := by
  simp only [isDigitText, Bool.and_eq_true, Bool.not_eq_true', List.isEmpty_eq_false_iff,
    List.all_eq_true]
  exact ⟨Nat.toDigits_ne_nil, fun c hc => isDigitChar_of_isDecimal (isDecimal_of_mem_toDigits hc)⟩

/-! ## Section 2: Writing -/

theorem toList_toString (n : Nat) : (toString n).toList = Nat.toDigits 10 n :=
  Nat.toList_repr

/-- A number is written in its digits, unless there are too many. -/
theorem write_eq_ok_iff {n : Nat} {text : Text} :
    write n = .ok text ↔ text = Nat.toDigits 10 n ∧ (Nat.toDigits 10 n).length ≤ maxDigits := by
  simp only [write, toList_toString]
  by_cases hlen : (Nat.toDigits 10 n).length > maxDigits
  · simp [hlen]
  · simp [hlen, Nat.not_lt.mp hlen, eq_comm]

/-! ## Section 3: Reading -/

/-- A text is read as a number exactly when it is made of decimal digits
    and not too long. -/
theorem read_eq_ok_iff {text : Text} {n : Nat} :
    read text = .ok n ↔
      text ≠ [] ∧ text.all isDecimal = true ∧ text.length ≤ maxDigits ∧ value text = n := by
  have hle : (text.takeWhile isDecimal).length ≤ text.length :=
    (List.takeWhile_sublist isDecimal).length_le
  have hall : text.all isDecimal = true ↔ (text.takeWhile isDecimal).length = text.length := by
    rw [List.all_eq_true, ← List.takeWhile_eq_self_iff]
    exact ⟨fun h => congrArg List.length h, fun h => (List.takeWhile_prefix isDecimal).eq_of_length h⟩
  -- the guards of the reader: too many digits, then no text or another character in it
  rw [hall, read]
  split
  · simp only [reduceCtorEq, false_iff]
    omega
  · split
    · next hbad =>
      simp only [Bool.or_eq_true, List.isEmpty_iff, decide_eq_true_eq] at hbad
      simp only [reduceCtorEq, false_iff]
      intro hnumeral
      obtain ⟨hne, hlen, -, -⟩ := hnumeral
      rcases hbad with hnil | hlt
      · exact hne hnil
      · omega
    · next hbad =>
      simp only [Bool.or_eq_true, List.isEmpty_iff, decide_eq_true_eq, not_or] at hbad
      simp only [Except.ok.injEq]
      constructor
      · intro hvalue
        exact ⟨hbad.1, by omega, by omega, hvalue⟩
      · intro hnumeral
        obtain ⟨-, -, -, hvalue⟩ := hnumeral
        exact hvalue

theorem value_toDigits (n : Nat) : value (Nat.toDigits 10 n) = n := by
  have hfold : ∀ (digits : Text) (total : Nat), (∀ c ∈ digits, c.isDigit = true) →
      digits.foldl (fun total c => 10 * total + (decimalValue? c).getD 0) total =
        Nat.ofDigitChars 10 digits total := by
    intro digits
    induction digits with
    | nil => intro total _; rfl
    | cons c rest ih =>
      intro total hdigits
      have hc := hdigits c List.mem_cons_self
      rw [List.foldl_cons, Nat.ofDigitChars_cons, decimalValue?_of_isDigit hc]
      exact ih _ fun d hd => hdigits d (List.mem_cons_of_mem _ hd)
  have hdigits : ∀ c ∈ Nat.toDigits 10 n, c.isDigit = true := fun c hc =>
    Nat.isDigit_of_mem_toDigits (by decide) (by decide) hc
  rw [value, hfold _ 0 hdigits, Nat.ofDigitChars_ten_toDigits]

/-- Digits denote a number below the power of ten with as many zeros. -/
theorem value_lt (digits : Text) : value digits < 10 ^ digits.length := by
  have hdigit : ∀ c : Char, (decimalValue? c).getD 0 < 10 := by
    intro c
    unfold decimalValue?
    cases Unicode.decimalDigits.intervals.find? (·.contains c.toNat) with
    | none => exact Nat.succ_pos 9
    | some run => exact Nat.mod_lt _ (by decide)
  have hfold : ∀ (digits : Text) (total bound : Nat), total < bound →
      digits.foldl (fun total c => 10 * total + (decimalValue? c).getD 0) total <
        bound * 10 ^ digits.length := by
    intro digits
    induction digits with
    | nil => intro total bound h; simpa using h
    | cons c rest ih =>
      intro total bound h
      have hc := hdigit c
      have hnext := ih (10 * total + (decimalValue? c).getD 0) (10 * bound) (by omega)
      rw [List.foldl_cons, List.length_cons, Nat.pow_succ']
      calc _ < 10 * bound * 10 ^ rest.length := hnext
        _ = bound * (10 * 10 ^ rest.length) := by ring
  have hvalue := hfold digits 0 1 Nat.one_pos
  rwa [Nat.one_mul] at hvalue

/-- What was written is read back. -/
theorem read_of_write {n : Nat} {text : Text} (h : write n = .ok text) : read text = .ok n := by
  obtain ⟨rfl, hlen⟩ := write_eq_ok_iff.mp h
  refine read_eq_ok_iff.mpr ⟨Nat.toDigits_ne_nil, ?_, hlen, value_toDigits n⟩
  exact List.all_eq_true.mpr fun c hc => isDecimal_of_mem_toDigits hc

end Numeral

end RegexInsight
