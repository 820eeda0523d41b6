import Mathlib
import RegexInsight.Proofs.Pattern.Cut
import RegexInsight.Proofs.Pattern.Leaf

/-! # Reading leaves of a text that is cut

    An escape and a bracket class are read from their own characters,
    however the text goes on behind them.  The exceptions are the
    escapes that quote what follows and those that refer to a group, whose
    number depends on what was read before. -/

namespace RegexInsight

/-! ## Section 1: Codes and properties -/

namespace Escape

variable {start : Nat} {cur after : Cursor}

theorem hexDigits?_cut {letter : Char} {width : Nat} {digits : Text} (hwidth : 0 < width)
    (h : hexDigits? letter width cur = some (digits, after)) :
    ∃ n, after = cur.advance n ∧ n ≤ cur.rest.length ∧
      ∀ cut, cur.Agrees cut n → hexDigits? letter width cut = some (digits, cut.advance n) := by
  rcases hexDigits?_eq_some_iff.mp h with ⟨⟨rfl, hhead⟩, hfound⟩ | ⟨hplain, hle, rfl, rfl⟩
  · obtain ⟨rfl, hlength, hcut⟩ := Cursor.upTo?_cut hfound
    rw [Cursor.advance_rest, List.length_drop] at hlength
    have hsum : 1 + (digits.length + 1) ≤ cur.rest.length := by
      have hsome := List.length_pos_of_mem (List.mem_of_mem_head? hhead)
      omega
    refine ⟨1 + (digits.length + 1), Cursor.advance_advance _ _ _, hsum, fun cut h => ?_⟩
    have hhead' : cut.rest.head? = some '\x7b' := (h.head? (by omega)).trans hhead
    refine hexDigits?_eq_some_iff.mpr (.inl ⟨⟨rfl, hhead'⟩, ?_⟩)
    rw [hcut (cut.advance 1) h.advance, Cursor.advance_advance]
  · refine ⟨width, rfl, hle, fun cut h => ?_⟩
    rw [← h.head? hwidth] at hplain
    exact hexDigits?_eq_some_iff.mpr (.inr ⟨hplain, h.length, h.take.symm, rfl⟩)

theorem readHex_cut {letter : Char} {width : Nat} {code : CodePoint} (hwidth : 0 < width)
    (h : readHex start letter width cur = .ok (code, after)) :
    ∃ n, after = cur.advance n ∧
      Rereads (fun start cut => readHex start letter width cut) cur code n := by
  obtain ⟨digits, hdigits, hcode⟩ := readHex_eq_ok_iff.mp h
  obtain ⟨n, rfl, hlength, hcut⟩ := hexDigits?_cut hwidth hdigits
  exact ⟨n, rfl, hlength, fun start cut h =>
    readHex_eq_ok_iff.mpr ⟨digits, hcut cut h, hcode⟩⟩

theorem hexWidth?_pos {c : Char} {width : Nat} (h : hexWidth? c = some width) : 0 < width := by
  unfold hexWidth? at h
  split at h
  case h_4 => simp at h
  all_goals
    obtain rfl := Option.some.inj h
    decide

theorem octalCode_of_ok {digits : Text} {code : CodePoint} (start' : Nat)
    (h : octalCode start digits = .ok code) : octalCode start' digits = .ok code := by
  obtain ⟨hle, hcode⟩ := Read.guard_eq_ok.mp h
  exact Read.guard_eq_ok.mpr ⟨hle, hcode⟩

theorem readOctal_cut {first : Char} {code : CodePoint}
    (h : readOctal start first cur = .ok (code, after)) :
    ∃ n, after = cur.advance n ∧
      Rereads (fun start cut => readOctal start first cut) cur code n := by
  obtain ⟨code', hcode, hpair⟩ := Read.bind_eq_ok.mp h
  obtain ⟨rfl, rfl⟩ := Prod.mk.inj (Except.ok.inj hpair)
  refine ⟨_, rfl, ?_, fun start cut h => ?_⟩
  · exact ((List.takeWhile_sublist _).trans (List.take_sublist _ _)).length_le
  · have hmore : (cut.rest.take 2).takeWhile isOctal = (cur.rest.take 2).takeWhile isOctal :=
      h.takeWhile_take (by decide) (by decide) (Nat.le_refl _)
    simp only [readOctal, hmore, octalCode_of_ok start hcode]
    rfl

theorem propertyName_cut {name : Text} (h : propertyName start cur = .ok (name, after)) :
    ∃ n, 0 < n ∧ after = cur.advance n ∧ Rereads propertyName cur name n := by
  rcases propertyName_eq_ok_iff.mp h with
    ⟨rest, hrest, hfound⟩ | ⟨c, rest, hrest, hletter, rfl, rfl⟩
  · obtain ⟨rfl, hlength, hcut⟩ := Cursor.upTo?_cut hfound
    rw [Cursor.advance_rest, List.length_drop] at hlength
    have hsum : 1 + (name.length + 1) ≤ cur.rest.length := by
      rw [hrest, List.length_cons] at hlength ⊢
      omega
    refine ⟨1 + (name.length + 1), by omega, Cursor.advance_advance _ _ _, hsum,
      fun start cut h => ?_⟩
    obtain ⟨rest', hrest'⟩ := h.exists_cons hrest (by omega)
    refine propertyName_eq_ok_iff.mpr (.inl ⟨rest', hrest', ?_⟩)
    rw [hcut _ h.advance, Cursor.advance_advance]
  · refine ⟨1, Nat.one_pos, rfl, by simp [hrest], fun start cut h => ?_⟩
    obtain ⟨rest', hrest'⟩ := h.exists_cons hrest Nat.one_pos
    exact propertyName_eq_ok_iff.mpr (.inr ⟨c, rest', hrest', hletter, rfl, rfl⟩)

theorem readProperty_cut {negated : Bool} {chars : CharSet}
    (h : readProperty start negated cur = .ok (chars, after)) :
    ∃ n, after = cur.advance n ∧
      Rereads (fun start cut => readProperty start negated cut) cur chars n := by
  obtain ⟨⟨written, after'⟩, hname, h⟩ := Read.bind_eq_ok.mp h
  obtain ⟨hsome, hpair⟩ := Read.guard_eq_ok.mp h
  obtain ⟨rfl, rfl⟩ := Prod.mk.inj (Except.ok.inj hpair)
  obtain ⟨n, -, rfl, hlength, hcut⟩ := propertyName_cut hname
  refine ⟨n, rfl, hlength, fun start cut h => ?_⟩
  simp only [readProperty, hcut start cut h]
  exact Read.guard_eq_ok.mpr ⟨hsome, rfl⟩

/-- What follows from reading on behind an escaped character holds in every
    cut text that still has what was read. -/
theorem cut_behind {α : Type} {f : Nat → Cursor → Read (α × Cursor)} {c : Char} {rest : Text}
    {a : α} {n : Nat} {P : Cursor → Prop} (hrest : cur.rest = '\\' :: c :: rest)
    (h : Rereads f (cur.advance 2) a n)
    (hbehind : ∀ cut rest', cut.rest = '\\' :: c :: rest' →
      f cut.pos (cut.advance 2) = .ok (a, cut.advance (2 + n)) → P cut) :
    2 + n ≤ cur.rest.length ∧ ∀ cut, cur.Agrees cut (2 + n) → P cut := by
  constructor
  · have hlength := h.length
    simp only [Cursor.advance_rest, hrest, List.drop_succ_cons, List.drop_zero, List.length_cons]
      at hlength ⊢
    omega
  · intro cut hcut
    obtain ⟨rest', hrest'⟩ := hcut.exists_cons_cons hrest (by omega)
    have hread := h.cut cut.pos (cut.advance 2) hcut.advance
    rw [Cursor.advance_advance] at hread
    exact hbehind cut rest' hrest' hread

end Escape

/-! ## Section 2: Bracket classes -/

namespace Bracket

variable {start : Nat} {cur after : Cursor}

/-- One member stands between two cursors, and is read from its own
    characters. -/
def AtomAt (cur after : Cursor) (atom : Atom) : Prop :=
  ∃ n, 0 < n ∧ after = cur.advance n ∧ Rereads (fun _ cut => readAtom cut) cur atom n

/-- A member of two characters. -/
theorem atomAt_two {c : Char} {rest : Text} {atom : Atom} (hrest : cur.rest = '\\' :: c :: rest)
    (hread : ∀ cut rest', cut.rest = '\\' :: c :: rest' →
      readAtom cut = .ok (atom, cut.advance 2)) : AtomAt cur (cur.advance 2) atom := by
  refine ⟨2, Nat.two_pos, rfl, by simp [hrest], fun start cut hcut => ?_⟩
  obtain ⟨rest', hrest'⟩ := hcut.exists_cons_cons hrest Nat.one_lt_two
  exact hread cut rest' hrest'

/-- A member that goes on behind its escaped character. -/
theorem atomAt_behind {α : Type} {f : Nat → Cursor → Read (α × Cursor)} {a : α} {n : Nat} {c : Char}
    {rest : Text} {atom : Atom} (hrest : cur.rest = '\\' :: c :: rest)
    (hreads : Rereads f (cur.advance 2) a n)
    (hread : ∀ cut rest' stop, cut.rest = '\\' :: c :: rest' →
      f cut.pos (cut.advance 2) = .ok (a, stop) → readAtom cut = .ok (atom, stop)) :
    AtomAt cur ((cur.advance 2).advance n) atom := by
  obtain ⟨hlength, hcut⟩ := Escape.cut_behind hrest hreads fun cut rest' => hread cut rest' _
  exact ⟨2 + n, by omega, Cursor.advance_advance _ _ _, hlength, fun _ => hcut⟩

theorem readAtom_cut {atom : Atom} (h : readAtom cur = .ok (atom, after)) :
    AtomAt cur after atom := by
  rcases cases_of_readAtom h with ⟨c, rest, hrest, hc, rfl, rfl⟩ | ⟨c, rest, hrest⟩
  · refine ⟨1, Nat.one_pos, rfl, by simp [hrest], fun start cut hcut => ?_⟩
    obtain ⟨rest', hrest'⟩ := hcut.exists_cons hrest Nat.one_pos
    exact readAtom_plain hrest' hc
  -- by what the escape is: two characters, or a reader behind them
  obtain ⟨f, hform, hread⟩ := exists_form c
  rw [hread cur rest hrest] at h
  cases hform with
  | pair _ =>
    obtain ⟨rfl, rfl⟩ := Prod.mk.inj (Except.ok.inj h)
    exact atomAt_two hrest hread
  | property _ =>
    obtain ⟨⟨chars, stop⟩, hchars, hpair⟩ := Read.bind_eq_ok.mp h
    obtain ⟨rfl, rfl⟩ := Prod.mk.inj (Except.ok.inj hpair)
    obtain ⟨n, rfl, hreads⟩ := Escape.readProperty_cut hchars
    refine atomAt_behind hrest hreads fun cut rest' stop hrest' hcut => ?_
    exact (hread cut rest' hrest').trans (Read.bind_eq_ok.mpr ⟨(chars, stop), hcut, rfl⟩)
  | hexadecimal hwidth =>
    obtain ⟨⟨code, stop⟩, hcode, hpair⟩ := Read.bind_eq_ok.mp h
    obtain ⟨rfl, rfl⟩ := Prod.mk.inj (Except.ok.inj hpair)
    obtain ⟨n, rfl, hreads⟩ := Escape.readHex_cut (Escape.hexWidth?_pos hwidth) hcode
    refine atomAt_behind hrest hreads fun cut rest' stop hrest' hcut => ?_
    exact (hread cut rest' hrest').trans (Read.bind_eq_ok.mpr ⟨(code, stop), hcut, rfl⟩)
  | octal =>
    obtain ⟨⟨code, stop⟩, hcode, hpair⟩ := Read.bind_eq_ok.mp h
    obtain ⟨rfl, rfl⟩ := Prod.mk.inj (Except.ok.inj hpair)
    obtain ⟨n, rfl, hreads⟩ := Escape.readOctal_cut hcode
    refine atomAt_behind hrest hreads fun cut rest' stop hrest' hcut => ?_
    exact (hread cut rest' hrest').trans (Read.bind_eq_ok.mpr ⟨(code, stop), hcut, rfl⟩)
  | unknown => simp at h

/-- Where a range goes on, it does so in a text with the same two
    characters. -/
theorem GoesOn.agrees {cut : Cursor} (h : GoesOn cur) (hcut : cur.Agrees cut 2) : GoesOn cut := by
  obtain ⟨next, rest, hdash, hne⟩ := h
  obtain ⟨rest', hdash'⟩ := hcut.exists_cons_cons hdash Nat.one_lt_two
  exact ⟨next, rest', hdash', hne⟩

/-- Where no range goes on, none does in a text with the same character, and
    with the same two if the first is a dash. -/
theorem not_goesOn_of_agrees {cut : Cursor} (h : ¬ GoesOn cur) (hone : cur.Agrees cut 1)
    (htwo : cur.rest.head? = some '-' → cur.Agrees cut 2) : ¬ GoesOn cut := by
  rintro ⟨next, rest, hdash, hne⟩
  have hhead : cur.rest.head? = some '-' := by
    rw [← hone.head? Nat.one_pos, hdash]
    rfl
  have htake : cur.rest.take 2 = ['-', next] := by
    rw [← (htwo hhead).take, hdash]
    rfl
  have hsplit := List.take_append_drop 2 cur.rest
  rw [htake] at hsplit
  exact h ⟨next, _, hsplit.symm, hne⟩

/-- A member may look one character further, and one more at a dash. -/
theorem readItem_cut {item : CharSet × Bool} (h : readItem cur = .ok (item, after)) :
    ∃ n, 0 < n ∧ after = cur.advance n ∧ n ≤ cur.rest.length ∧
      ∀ cut, cur.Agrees cut (n + 1) → (after.rest.head? = some '-' → cur.Agrees cut (n + 2)) →
        readItem cut = .ok (item, cut.advance n) := by
  rcases readItem_cases h with ⟨low, hlow, halone, rfl⟩ |
    ⟨low, afterLow, lo, high, hi, hlow, hlo, hgoes, hhigh, hhi, horder, rfl⟩
  · obtain ⟨n, hpos, rfl, hlength, hlow⟩ := readAtom_cut hlow
    refine ⟨n, hpos, rfl, hlength, fun cut hcut hcut' => ?_⟩
    refine readItem_alone (hlow 0 cut (hcut.mono (Nat.le_succ n))) (halone.imp_right fun hends => ?_)
    exact not_goesOn_of_agrees hends hcut.advance fun hdash => (hcut' hdash).advance
  · obtain ⟨n, hpos, rfl, hlength, hlow⟩ := readAtom_cut hlow
    obtain ⟨m, hpos', rfl, hlength', hhigh⟩ := readAtom_cut hhigh
    rw [Cursor.advance_rest, Cursor.advance_rest, List.length_drop, List.length_drop] at hlength'
    have hsum : ∀ cut : Cursor,
        ((cut.advance n).advance 1).advance m = cut.advance (n + (1 + m)) := by
      intro cut
      rw [Cursor.advance_advance, Cursor.advance_advance]
    refine ⟨n + (1 + m), by omega, hsum cur, by omega, fun cut hcut _ => ?_⟩
    have hbehind : (cur.advance n).Agrees (cut.advance n) (1 + m) := (hcut.mono (by omega)).advance
    rw [readItem_of_goesOn (hlow 0 cut (hcut.mono (by omega))) hlo
      (hgoes.agrees (hbehind.mono (by omega))) (hhigh 0 _ hbehind.advance) hhi, if_neg horder,
      hsum cut]

theorem posixName?_cut {name : Text} (h : posixName? cur = some (name, after)) :
    ∃ n, 0 < n ∧ after = cur.advance n ∧ n ≤ cur.rest.length ∧
      ∀ cut, cur.Agrees cut n → posixName? cut = some (name, cut.advance n) := by
  obtain ⟨⟨rest, hrest⟩, hfound, rfl⟩ := posixName?_eq_some_iff.mp h
  have hlength := Cursor.length_beforePair? hfound
  rw [Cursor.advance_rest, List.length_drop] at hlength
  refine ⟨2 + (name.length + 2), by omega, Cursor.advance_advance _ _ _, by omega,
    fun cut hcut => posixName?_eq_some_iff.mpr ⟨?_, ?_, (Cursor.advance_advance _ _ _).symm⟩⟩
  · exact hcut.exists_cons_cons hrest (by omega)
  · exact Cursor.Agrees.beforePair? hfound hcut.advance

/-- No POSIX class begins where none opens, and where one opens with no end
    behind it. -/
theorem posixName?_eq_none_iff : posixName? cur = none ↔
    ∀ rest, cur.rest = '[' :: ':' :: rest → ¬ HasPair ':' ']' rest := by
  unfold posixName?
  split
  next rest hrest =>
    rw [Cursor.upToPair?, Option.map_eq_none_iff, Cursor.beforePair?_eq_none_iff,
      Cursor.advance_rest, hrest]
    simp
  next hnone => exact iff_of_true rfl fun rest hrest => absurd hrest (hnone rest)

/-- Where no POSIX class begins, none does in a text that begins alike. -/
theorem posixName?_eq_none_of_agrees {other : Cursor} (hagrees : cur.Agrees other 1)
    (h : posixName? cur = none) : posixName? other = none := by
  rw [posixName?_eq_none_iff] at h ⊢
  intro rest hrest hpair
  obtain ⟨common, more, tail, hcur, hother, hlength, hends⟩ := hagrees
  rw [hrest] at hother
  -- the opening is part of what the texts have in common
  match common with
  | [] => simp at hlength
  | [c] =>
    have htail : ':' :: rest = tail := (List.cons.inj hother).2
    rcases hends.head ':' (by rw [← htail]; rfl) with hcolon | hcolon <;>
      exact absurd hcolon (by decide)
  | c :: d :: inner =>
    obtain ⟨rfl, hsecond⟩ := List.cons.inj hother
    obtain ⟨rfl, rfl⟩ := List.cons.inj hsecond
    have hbracket : ']' ∉ tail.head? := by
      intro hmem
      rcases hends.head ']' hmem with hparen | hparen <;> exact absurd hparen (by decide)
    refine h _ hcur ?_
    rcases hasPair_append hbracket hpair with hfirst | hsecond
    · exact hfirst.append_right more
    · exact (hends.pair hsecond).append_left inner

theorem readPosix_of_ok {position : Nat} {written : Text} {chars : CharSet} (position' : Nat)
    (h : readPosix position written = .ok chars) : readPosix position' written = .ok chars := by
  unfold readPosix at h ⊢
  dsimp only at h ⊢
  split at h
  next => simp at h
  next => exact h

/-- The members are read from their own characters, with a fuel of their
    number. -/
theorem readMembers_cut {fuel : Nat} {isFirst : Bool} {members result : Members}
    (h : readMembers start fuel isFirst members cur = .ok (result, after)) :
    ∃ n, 0 < n ∧ (cur.rest.head? = some '-' → 2 ≤ n) ∧ after = cur.advance n ∧
      n ≤ cur.rest.length ∧ ∀ start fuel cut, cur.Agrees cut n → n ≤ fuel →
        readMembers start fuel isFirst members cut = .ok (result, cut.advance n) := by
  induction fuel generalizing isFirst members cur with
  | zero => simp [readMembers] at h
  | succ fuel ih =>
    rcases readMembers_cases h with ⟨rfl, ⟨rest, hrest⟩, rfl, rfl⟩ |
      ⟨written, next, chars, hname, hchars, hmore⟩ | ⟨item, next, hopen, hname, hitem, hmore⟩
    · refine ⟨1, Nat.one_pos, by simp [hrest], rfl, by simp [hrest],
        fun start fuel cut hcut hfuel => ?_⟩
      obtain ⟨fuel, rfl⟩ := Nat.exists_eq_add_of_le' hfuel
      obtain ⟨rest', hrest'⟩ := hcut.exists_cons hrest Nat.one_pos
      exact readMembers_close hrest' start fuel _
    · obtain ⟨m, hm, rfl, hlength, hname⟩ := posixName?_cut hname
      obtain ⟨n, hn, -, rfl, hlength', hmembers⟩ := ih hmore
      rw [Cursor.advance_rest, List.length_drop] at hlength'
      refine ⟨m + n, by omega, fun _ => by omega, Cursor.advance_advance _ _ _, by omega,
        fun start fuel cut hcut hfuel => ?_⟩
      obtain ⟨fuel, rfl⟩ : ∃ more, fuel = more + 1 := ⟨fuel - 1, by omega⟩
      rw [readMembers_posix (hname cut (hcut.mono (by omega))), ← Cursor.advance_advance]
      exact Read.bind_eq_ok.mpr ⟨chars, readPosix_of_ok cut.pos hchars,
        hmembers start fuel _ hcut.advance (by omega)⟩
    · obtain ⟨m, hm, rfl, hlength, hitem⟩ := readItem_cut hitem
      obtain ⟨n, hn, hdash, rfl, hlength', hmembers⟩ := ih hmore
      rw [Cursor.advance_rest, List.length_drop] at hlength'
      refine ⟨m + n, by omega, fun _ => by omega, Cursor.advance_advance _ _ _, by omega,
        fun start fuel cut hcut hfuel => ?_⟩
      obtain ⟨fuel, rfl⟩ : ∃ more, fuel = more + 1 := ⟨fuel - 1, by omega⟩
      have hne : cut.rest ≠ [] := List.ne_nil_of_length_pos (by have := hcut.length; omega)
      have hopen' : isFirst = true ∨ cut.rest.head? ≠ some ']' := by
        rwa [hcut.head? (by omega)]
      rw [readMembers_member hne hopen' (posixName?_eq_none_of_agrees (hcut.mono (by omega)) hname),
        ← Cursor.advance_advance]
      -- what follows the member is one character at least, and two if it is a dash
      have hitem' := hitem cut (hcut.mono (by omega)) fun hhead =>
        hcut.mono (Nat.add_le_add_left (hdash hhead) m)
      exact Read.bind_eq_ok.mpr ⟨(item, cut.advance m), hitem',
        hmembers start fuel _ hcut.advance (by omega)⟩

/-- Whether a caret negates the class at the cursor, and how many characters
    stand before its members. -/
def OpensWith (cur : Cursor) (negated : Bool) (n : Nat) : Prop :=
  ((cur.advance 1).rest.head? == some '^') = negated ∧
    (if negated then (cur.advance 1).advance 1 else cur.advance 1) = cur.advance n

theorem exists_opensWith {c : Char} {rest : Text} (hrest : cur.rest = c :: rest) :
    ∃ negated n, 0 < n ∧ n ≤ cur.rest.length ∧ OpensWith cur negated n ∧
      ∀ cut, cur.Agrees cut (n + 1) → OpensWith cut negated n := by
  have hhead : ∀ {cut : Cursor} {n : Nat}, cur.Agrees cut (n + 1) → 0 < n →
      (cut.advance 1).rest.head? = (cur.advance 1).rest.head? := by
    intro cut n hcut hn
    have hbehind : (cur.advance 1).Agrees (cut.advance 1) 1 := (hcut.mono (by omega)).advance
    exact hbehind.head? Nat.one_pos
  by_cases hcaret : (cur.advance 1).rest.head? = some '^'
  · have hlength : 2 ≤ cur.rest.length := by
      obtain ⟨rest, hrest⟩ := List.head?_eq_some_iff.mp hcaret
      have hlength := congrArg List.length hrest
      rw [Cursor.advance_rest, List.length_drop, List.length_cons] at hlength
      omega
    have hopens : ∀ cut : Cursor, (cut.advance 1).rest.head? = some '^' → OpensWith cut true 2 := by
      intro cut h
      exact ⟨beq_iff_eq.mpr h, by rw [if_pos rfl, Cursor.advance_advance]⟩
    exact ⟨true, 2, Nat.two_pos, hlength, hopens cur hcaret, fun cut hcut =>
      hopens cut ((hhead hcut Nat.two_pos).trans hcaret)⟩
  · have hopens : ∀ cut : Cursor, (cut.advance 1).rest.head? ≠ some '^' → OpensWith cut false 1 :=
      fun cut h => ⟨beq_eq_false_iff_ne.mpr h, rfl⟩
    exact ⟨false, 1, Nat.one_pos, by simp [hrest], hopens cur hcaret, fun cut hcut =>
      hopens cut fun h => hcaret ((hhead hcut Nat.one_pos).symm.trans h)⟩

/-- What `read` does behind the opening of a class. -/
theorem OpensWith.read_eq {negated : Bool} {n : Nat} (h : OpensWith cur negated n) (modes : Modes) :
    Bracket.read modes cur = (do
      let (members, after) ← readMembers cur.pos ((cur.advance n).rest.length + 1) true
        ⟨[], false, false⟩ (cur.advance n)
      let chars := modes.accepts (.unionAll members.sets.reverse)
      let chars := if negated then chars.complement else chars
      let source := cur.rest.take (after.pos - cur.pos)
      return (⟨.charClass source ⟨negated, members.hasProperty, members.hasPosix⟩ chars,
        cur.pos, after.pos⟩, after)) := by
  obtain ⟨hnegated, hinside⟩ := h
  simp only [Bracket.read, hnegated, hinside]

/-- A bracket class is read from its own characters, as a leaf that spans
    them. -/
theorem read_cut {modes : Modes} {leaf : Escape.Leaf} {rest : Text} (hrest : cur.rest = '[' :: rest)
    (h : Bracket.read modes cur = .ok (leaf, after)) :
    ∃ n, 0 < n ∧ n ≤ cur.rest.length ∧ after = cur.advance n ∧ leaf.start = cur.pos ∧
      leaf.stop = cur.pos + n ∧ ∀ cut, cur.Agrees cut n →
        Bracket.read modes cut = .ok (⟨leaf.label, cut.pos, cut.pos + n⟩, cut.advance n) := by
  obtain ⟨negated, k, hk, hlength, hopens, hopens'⟩ := exists_opensWith hrest
  rw [hopens.read_eq] at h
  obtain ⟨⟨members, stop⟩, hmembers, hpair⟩ := Read.bind_eq_ok.mp h
  obtain ⟨rfl, rfl⟩ := Prod.mk.inj (Except.ok.inj hpair)
  obtain ⟨n, hn, -, rfl, hlength', hmembers⟩ := readMembers_cut hmembers
  rw [Cursor.advance_rest, List.length_drop] at hlength'
  refine ⟨k + n, by omega, by omega, Cursor.advance_advance _ _ _, rfl,
    congrArg Cursor.pos (Cursor.advance_advance cur k n), fun cut hcut => ?_⟩
  have hbehind : (cur.advance k).Agrees (cut.advance k) n := hcut.advance
  have hmembers' := hmembers cut.pos ((cut.advance k).rest.length + 1) _ hbehind
    (Nat.le_succ_of_le hbehind.length)
  rw [(hopens' cut (hcut.mono (by omega))).read_eq, hmembers']
  simp only [bind, Except.bind, Cursor.advance_advance, Cursor.advance_pos, Nat.add_sub_cancel_left,
    hcut.take]
  rfl

end Bracket

/-! ## Section 3: Escapes outside a class -/

/-- A leaf that refers to a group. -/
def Label.isReference : Label → Bool
  | backreference _ => true
  | recursion _ => true
  | _ => false

namespace Escape

variable {start groups : Nat} {modes : Modes} {cur after : Cursor} {reading : Reading}

/-- One leaf that refers to a group. -/
def Reading.IsReference (reading : Reading) : Prop :=
  ∃ leaf : Leaf, reading.leaves = [leaf] ∧ leaf.label.isReference = true

/-- Every leaf of an escape is plain or refers to a group. -/
theorem Reading.IsSound.isPlain_or_isReference {leaf : Leaf}
    (h : reading.IsSound modes groups cur after) (hleaf : leaf ∈ reading.leaves) :
    leaf.label.IsPlain modes ∨ leaf.label.isReference = true := by
  cases h with
  | plain hleaves => exact .inl (hleaves leaf hleaf)
  | backreference =>
    obtain rfl := List.mem_singleton.mp hleaf
    exact .inr rfl
  | recursion =>
    obtain rfl := List.mem_singleton.mp hleaf
    exact .inr rfl
  | whole =>
    obtain rfl := List.mem_singleton.mp hleaf
    exact .inr rfl

theorem isReference_of_readNamed (h : readNamed start cur = .ok (reading, after)) :
    reading.IsReference := by
  unfold readNamed at h
  split at h
  next => simp at h
  next =>
    obtain ⟨⟨name, after'⟩, -, hpair⟩ := Read.bind_eq_ok.mp h
    obtain ⟨rfl, -⟩ := Prod.mk.inj (Except.ok.inj hpair)
    exact ⟨_, rfl, rfl⟩

theorem isReference_of_backreference {target : Text} {stop : Cursor}
    (h : backreference start groups target stop = .ok (reading, after)) : reading.IsReference := by
  obtain ⟨reference, -, hpair⟩ := Read.bind_eq_ok.mp h
  obtain ⟨rfl, -⟩ := Prod.mk.inj (Except.ok.inj hpair)
  exact ⟨_, rfl, rfl⟩

theorem isReference_of_call {terminator : Char}
    (h : readGeneral.call start groups cur terminator = .ok (reading, after)) :
    reading.IsReference := by
  unfold readGeneral.call at h
  split at h
  next => simp at h
  next =>
    dsimp only at h
    split at h
    next =>
      obtain ⟨rfl, -⟩ := Prod.mk.inj (Except.ok.inj h)
      exact ⟨_, rfl, rfl⟩
    next =>
      obtain ⟨reference, -, hpair⟩ := Read.bind_eq_ok.mp h
      obtain ⟨rfl, -⟩ := Prod.mk.inj (Except.ok.inj hpair)
      exact ⟨_, rfl, rfl⟩

theorem isReference_of_readGeneral (h : readGeneral start groups cur = .ok (reading, after)) :
    reading.IsReference := by
  unfold readGeneral at h
  split at h
  next => exact isReference_of_call h
  next => exact isReference_of_call h
  next =>
    split at h
    next => simp at h
    next => exact isReference_of_backreference h
  next =>
    dsimp only at h
    obtain ⟨-, hback⟩ := Read.guard_eq_ok.mp h
    exact isReference_of_backreference hback

/-- Three octal digits are a character code that is read from its own
    characters; other digits are a reference. -/
theorem readNumbered_cut {first : Char}
    (h : readNumbered modes start first cur = .ok (reading, after)) :
    reading.IsReference ∨ ∃ label,
      reading = .leaf label start after.pos ∧ after = cur.advance 2 ∧ 2 ≤ cur.rest.length ∧
        ∀ start cut, cur.Agrees cut 2 →
          readNumbered modes start first cut =
            .ok (.leaf label start (cut.pos + 2), cut.advance 2) := by
  unfold readNumbered at h
  dsimp only at h
  split at h
  next hoctal =>
    obtain ⟨code, hcode, hpair⟩ := Read.bind_eq_ok.mp h
    obtain ⟨rfl, rfl⟩ := Prod.mk.inj (Except.ok.inj hpair)
    -- three digits are the first one and two more
    have hlength : ((cur.rest.take 2).takeWhile isDigitChar).length = 2 := by
      have hthree := eq_of_beq (Bool.and_eq_true_iff.mp hoctal).1
      rw [List.length_cons] at hthree
      omega
    have hle : 2 ≤ cur.rest.length := by
      have hdigits := (List.takeWhile_sublist isDigitChar).trans (List.take_sublist 2 cur.rest)
      have hsub := hdigits.length_le
      omega
    refine .inr ⟨modes.literal code, rfl, by rw [hlength], hle, fun start cut hcut => ?_⟩
    simp only [readNumbered, hcut.take, hoctal, if_true, hlength, octalCode_of_ok start hcode]
    rfl
  next =>
    obtain ⟨rfl, -⟩ := Prod.mk.inj (Except.ok.inj h)
    exact .inl ⟨_, rfl, rfl⟩

/-- The escape at the cursor is read, from its own characters, as one leaf
    that spans `width` of its `n` characters. -/
structure ReadsLeaf (modes : Modes) (cur : Cursor) (label : Label) (width n : Nat) : Prop where
  length : n ≤ cur.rest.length
  cut : ∀ groups cut, cur.Agrees cut n →
    Escape.read modes groups cut = .ok (.leaf label cut.pos (cut.pos + width), cut.advance n)

/-- The span of an escape covers it, unless it is a hexadecimal or octal code
    whose span stops before the digits. -/
inductive Spans (modes : Modes) : Char → Label → Nat → Nat → Prop where
  | whole {c : Char} {label : Label} {n : Nat} : Spans modes c label n n
  | hexadecimal {c : Char} {code : CodePoint} {n : Nat} (hc : (hexWidth? c).isSome = true) :
      Spans modes c (modes.literal code) 2 n
  | octal {code : CodePoint} {n : Nat} : Spans modes '0' (modes.literal code) 2 n

theorem Spans.le {c : Char} {label : Label} {width n : Nat} (h : Spans modes c label width n)
    (htwo : 2 ≤ n) : width ≤ n := by
  cases h with
  | whole => exact Nat.le_refl _
  | hexadecimal => exact htwo
  | octal => exact htwo

/-- The escape of `c` between two cursors is read, from its own characters,
    as one leaf. -/
def EscapeAt (modes : Modes) (c : Char) (cur after : Cursor) (reading : Reading) : Prop :=
  ∃ label width n, reading = .leaf label cur.pos (cur.pos + width) ∧ after = cur.advance n ∧
    2 ≤ n ∧ ReadsLeaf modes cur label width n ∧ Spans modes c label width n

section Forms

variable {c : Char} {rest : Text} {n : Nat}

/-- An escape of two characters. -/
theorem escapeAt_two {label : Label} (hrest : cur.rest = '\\' :: c :: rest)
    (hread : ∀ groups cut rest', cut.rest = '\\' :: c :: rest' →
      Escape.read modes groups cut = .ok (.leaf label cut.pos (cut.pos + 2), cut.advance 2)) :
    EscapeAt modes c cur (cur.advance 2) (.leaf label cur.pos (cur.advance 2).pos) := by
  refine ⟨label, 2, 2, rfl, rfl, Nat.le_refl 2,
    ⟨by simp [hrest], fun groups cut hcut => ?_⟩, .whole⟩
  obtain ⟨rest', hrest'⟩ := hcut.exists_cons_cons hrest Nat.one_lt_two
  exact hread groups cut rest' hrest'

/-- A character code, whose span stops behind the escaped character. -/
theorem escapeAt_code {f : Nat → Cursor → Read (CodePoint × Cursor)} {code : CodePoint}
    (hrest : cur.rest = '\\' :: c :: rest) (hreads : Rereads f (cur.advance 2) code n)
    (hspans : Spans modes c (modes.literal code) 2 (2 + n))
    (hread : ∀ groups cut rest' stop, cut.rest = '\\' :: c :: rest' →
      f cut.pos (cut.advance 2) = .ok (code, stop) →
      Escape.read modes groups cut =
        .ok (.leaf (modes.literal code) cut.pos (cut.pos + 2), stop)) :
    EscapeAt modes c cur ((cur.advance 2).advance n)
      (.leaf (modes.literal code) cur.pos (cur.advance 2).pos) := by
  obtain ⟨hlength, hcut⟩ := cut_behind hrest hreads
    fun cut rest' hrest' hcode groups => hread groups cut rest' _ hrest' hcode
  exact ⟨modes.literal code, 2, 2 + n, rfl, Cursor.advance_advance _ _ _, Nat.le_add_right 2 n,
    ⟨hlength, fun groups cut h => hcut cut h groups⟩, hspans⟩

/-- A property, whose span is all of it. -/
theorem escapeAt_property {f : Nat → Cursor → Read (CharSet × Cursor)} {chars : CharSet}
    (hrest : cur.rest = '\\' :: c :: rest) (hreads : Rereads f (cur.advance 2) chars n)
    (hread : ∀ groups cut rest' stop, cut.rest = '\\' :: c :: rest' →
      f cut.pos (cut.advance 2) = .ok (chars, stop) →
      Escape.read modes groups cut =
        .ok (.leaf (.charClass (cut.rest.take (stop.pos - cut.pos)) ⟨false, true, false⟩ chars)
          cut.pos stop.pos, stop)) :
    EscapeAt modes c cur ((cur.advance 2).advance n)
      (.leaf (.charClass (cur.rest.take (((cur.advance 2).advance n).pos - cur.pos))
        ⟨false, true, false⟩ chars) cur.pos ((cur.advance 2).advance n).pos) := by
  obtain ⟨hlength, hcut⟩ := cut_behind hrest hreads
    fun cut rest' hrest' hchars groups => hread groups cut rest' _ hrest' hchars
  simp only [Cursor.advance_pos, Nat.add_sub_cancel_left] at hcut
  refine ⟨.charClass (cur.rest.take (2 + n)) ⟨false, true, false⟩ chars, 2 + n, 2 + n, ?_,
    Cursor.advance_advance _ _ _, Nat.le_add_right 2 n, ⟨hlength, fun groups cut h => ?_⟩, .whole⟩
  · simp only [Cursor.advance_advance, Cursor.advance_pos, Nat.add_sub_cancel_left]
  · rw [hcut cut h groups, h.take]

end Forms

/-- An escape is read from its own characters, unless it refers to a group
    or quotes what follows. -/
theorem read_cut {c : Char} {rest : Text} (hrest : cur.rest = '\\' :: c :: rest) (hc : c ≠ 'Q')
    (h : Escape.read modes groups cur = .ok (reading, after)) :
    reading.IsReference ∨ EscapeAt modes c cur after reading := by
  obtain ⟨f, hform, hread⟩ := exists_form c
  rw [hread modes groups cur rest hrest] at h
  cases hform with
  | shorthand _ | anchor _ | literal _ =>
    obtain ⟨rfl, rfl⟩ := Prod.mk.inj (Except.ok.inj h)
    exact .inr (escapeAt_two hrest (hread modes))
  | property negated =>
    obtain ⟨⟨chars, stop⟩, hchars, hpair⟩ := Read.bind_eq_ok.mp h
    obtain ⟨rfl, rfl⟩ := Prod.mk.inj (Except.ok.inj hpair)
    obtain ⟨n, rfl, hreads⟩ := readProperty_cut hchars
    refine .inr (escapeAt_property hrest hreads fun groups cut rest' stop hrest' hcut => ?_)
    exact (hread modes groups cut rest' hrest').trans
      (Read.bind_eq_ok.mpr ⟨(chars, stop), hcut, rfl⟩)
  | hexadecimal hwidth =>
    obtain ⟨⟨code, stop⟩, hcode, hpair⟩ := Read.bind_eq_ok.mp h
    obtain ⟨rfl, rfl⟩ := Prod.mk.inj (Except.ok.inj hpair)
    obtain ⟨n, rfl, hreads⟩ := readHex_cut (hexWidth?_pos hwidth) hcode
    have hspans : Spans modes c (modes.literal code) 2 (2 + n) :=
      .hexadecimal (by rw [hwidth]; rfl)
    refine .inr (escapeAt_code hrest hreads hspans fun groups cut rest' stop hrest' hcut => ?_)
    exact (hread modes groups cut rest' hrest').trans
      (Read.bind_eq_ok.mpr ⟨(code, stop), hcut, rfl⟩)
  | octal =>
    obtain ⟨⟨code, stop⟩, hcode, hpair⟩ := Read.bind_eq_ok.mp h
    obtain ⟨rfl, rfl⟩ := Prod.mk.inj (Except.ok.inj hpair)
    obtain ⟨n, rfl, hreads⟩ := readOctal_cut hcode
    refine .inr (escapeAt_code hrest hreads .octal fun groups cut rest' stop hrest' hcut => ?_)
    exact (hread modes groups cut rest' hrest').trans
      (Read.bind_eq_ok.mpr ⟨(code, stop), hcut, rfl⟩)
  | numbered hdigit =>
    -- three octal digits make an escape of four characters
    rcases readNumbered_cut h with href | ⟨label, rfl, rfl, hle, hreads⟩
    · exact .inl href
    have hlength : 4 ≤ cur.rest.length := by
      rw [Cursor.advance_rest, List.length_drop] at hle
      omega
    refine .inr ⟨label, 4, 4, rfl, Cursor.advance_advance _ _ _, by decide,
      ⟨hlength, fun groups cut hcut => ?_⟩, .whole⟩
    obtain ⟨rest', hrest'⟩ := hcut.exists_cons_cons hrest (by decide)
    have hbehind : (cur.advance 2).Agrees (cut.advance 2) 2 := hcut.advance
    rw [← Cursor.advance_advance cut 2 2]
    exact (hread modes groups cut rest' hrest').trans (hreads cut.pos _ hbehind)
  | named => exact .inl (isReference_of_readNamed h)
  | general => exact .inl (isReference_of_readGeneral h)
  | quoted => exact absurd rfl hc
  | unknown => simp at h

/-- An escape whose leaves are plain quotes what follows, or is a single
    leaf. -/
theorem read_plain_cases {leaves : List Leaf} {rest : Text} (hrest : cur.rest = '\\' :: rest)
    (h : Escape.read modes groups cur = .ok (⟨leaves, none⟩, after))
    (hplain : ∀ leaf ∈ leaves, leaf.label.IsPlain modes) :
    (∃ rest', rest = 'Q' :: rest' ∧ readQuoted modes (cur.advance 2) = (⟨leaves, none⟩, after)) ∨
      ∃ c rest', rest = c :: rest' ∧ EscapeAt modes c cur after ⟨leaves, none⟩ := by
  obtain ⟨c, rest, rfl⟩ := exists_cons_of_read hrest h
  by_cases hquote : c = 'Q'
  · subst hquote
    rw [read_eq_readQuoted hrest] at h
    exact .inl ⟨rest, rfl, Except.ok.inj h⟩
  · rcases read_cut hrest hquote h with ⟨leaf, rfl, hreference⟩ | hat
    · -- a plain leaf refers to nothing
      have hleaf := hplain leaf List.mem_cons_self
      generalize leaf.label = label at hleaf hreference
      cases hleaf <;> simp [Label.isReference, Modes.literal, Modes.dot] at hreference
    · exact .inr ⟨c, rest, rfl, hat⟩

end Escape

end RegexInsight
