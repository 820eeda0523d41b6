import Mathlib
import RegexInsight.Proofs.CharSet.Canonical
import RegexInsight.Proofs.Pattern.Progress
import RegexInsight.Proofs.Text.Numeral

/-! # Leaves of a pattern

    What an escape or a bracket class is read as.  A plain leaf consumes
    one character or asserts a position, and its character set follows from
    the character or the flags.  References come alone, together with a
    target that is a number or a name by its form.

    The character behind the backslash decides how an escape is read, so
    that each reader is inverted once, and so is the reader of an item, of
    the members of a class, and of a quote. -/

namespace RegexInsight

/-! ## Section 1: Labels of leaves -/

/-- Labels of the leaves that refer to nothing, under the flags `modes`. -/
inductive Label.IsPlain (modes : Modes) : Label → Prop where
  | literal {c : CodePoint} (h : c ≤ maxCodePoint) : IsPlain modes (modes.literal c)
  | charClass {source : Text} {traits : ClassTraits} {accepts : CharSet}
      (h : accepts.IsCanonical) (hsource : 2 ≤ source.length) :
      IsPlain modes (.charClass source traits accepts)
  | dot : IsPlain modes modes.dot
  | anchor {kind : Anchor} : IsPlain modes (.anchor kind)

/-- The forms of a target: the number of a group, or a name. -/
def IsTarget (target : Text) : Prop :=
  isDigitText target = true ∨ isGroupName target = true

/-- The ways to call the whole pattern. -/
def wholeCalls : List Text :=
  ["(?R)".toList, "\\g<0>".toList, "\\g'0'".toList]

theorem toNat_le_maxCodePoint (c : Char) : c.toNat ≤ maxCodePoint := by
  have h := c.valid
  simp only [UInt32.isValidChar, Nat.isValidChar] at h
  change c.val.toNat ≤ 0x10FFFF
  omega

namespace Escape

/-! ## Section 2: Readings of escapes -/

/-- The readings that an escape between two cursors can have when `groups`
    groups have been opened. -/
inductive Reading.IsSound (modes : Modes) (groups : Nat) (cur after : Cursor) : Reading → Prop where
  /-- Leaves that refer to nothing. -/
  | plain {leaves : List Leaf} (h : ∀ leaf ∈ leaves, leaf.label.IsPlain modes) :
      IsSound modes groups cur after ⟨leaves, none⟩
  | backreference {target : Text} (h : IsTarget target) :
      IsSound modes groups cur after ⟨[⟨.backreference target, cur.pos, after.pos⟩], some target⟩
  /-- A call, whose target is looked up in its absolute form. -/
  | recursion {target reference : Text}
      (h : absoluteReference cur.pos groups target = .ok reference) :
      IsSound modes groups cur after ⟨[⟨.recursion target, cur.pos, after.pos⟩], some reference⟩
  /-- A call of the whole pattern. -/
  | whole {target call : Text} (hcall : call ∈ wholeCalls) (hrest : cur.rest = call ++ after.rest) :
      IsSound modes groups cur after ⟨[⟨.recursion target, cur.pos, after.pos⟩], none⟩

theorem Reading.isSound_leaf {modes : Modes} {groups : Nat} {cur after : Cursor} {label : Label}
    {start stop : Nat} (h : label.IsPlain modes) :
    (Reading.leaf label start stop).IsSound modes groups cur after := by
  refine .plain fun leaf hleaf => ?_
  obtain rfl := List.mem_singleton.mp hleaf
  exact h

/-- A reference in absolute form is a number or a name. -/
theorem isTarget_of_absoluteReference {start groups : Nat} {target reference : Text}
    (h : absoluteReference start groups target = .ok reference) : IsTarget reference := by
  unfold absoluteReference at h
  split at h
  · obtain ⟨offset, -, hgroup⟩ := Read.bind_eq_ok.mp h
    obtain ⟨-, hwrite⟩ := Read.guard_eq_ok.mp hgroup
    unfold Read.numeralOf at hwrite
    split at hwrite
    · next htext =>
      obtain rfl := Except.ok.inj hwrite
      obtain ⟨rfl, -⟩ := Numeral.write_eq_ok_iff.mp htext
      exact .inl (Numeral.isDigitText_toDigits _)
    · simp at hwrite
  · obtain ⟨hform, htarget⟩ := Read.guard_eq_ok'.mp h
    obtain rfl := Except.ok.inj htarget
    simpa [IsTarget] using hform

/-- A name stands for itself. -/
theorem absoluteReference_of_isGroupName {start groups : Nat} {name : Text}
    (h : isGroupName name = true) : absoluteReference start groups name = .ok name := by
  have hunsigned : signedDigits? name = none := by
    cases name with
    | nil => rfl
    | cons c rest =>
      refine if_neg fun hsigned => ?_
      simp only [Bool.and_eq_true, Bool.or_eq_true, beq_iff_eq] at hsigned
      -- a sign cannot begin a name
      have hfirst : (isLetter c || c == '_') = false := by
        rcases hsigned.1.1 with rfl | rfl <;> decide +kernel
      simp [isGroupName, hfirst] at h
  simp [absoluteReference, hunsigned, h]

theorem le_of_control? {c : Char} {code : CodePoint} (h : control? c = some code) :
    code ≤ maxCodePoint := by
  unfold control? at h
  split at h
  case h_8 => simp at h
  all_goals
    obtain rfl := Option.some.inj h
    decide

/-! ## Section 3: The forms of an escape -/

/-- The ways to go on from a backslash, by the character behind it. -/
inductive Form : Char → (Modes → Nat → Cursor → Read (Reading × Cursor)) → Prop where
  | shorthand {c : Char} (kind : Shorthand) : Form c fun _ _ cur =>
      .ok (.leaf (.charClass ['\\', c] .plain kind.chars) cur.pos (cur.pos + 2), cur.advance 2)
  | anchor {c : Char} (kind : Anchor) : Form c fun _ _ cur =>
      .ok (.leaf (.anchor kind) cur.pos (cur.pos + 2), cur.advance 2)
  | literal {c : Char} {code : CodePoint} (h : code ≤ maxCodePoint) : Form c fun modes _ cur =>
      .ok (.leaf (modes.literal code) cur.pos (cur.pos + 2), cur.advance 2)
  | property {c : Char} (negated : Bool) : Form c fun _ _ cur => do
      let (chars, stop) ← readProperty cur.pos negated (cur.advance 2)
      let source := cur.rest.take (stop.pos - cur.pos)
      return (.leaf (.charClass source ⟨false, true, false⟩ chars) cur.pos stop.pos, stop)
  | hexadecimal {c : Char} {width : Nat} (h : hexWidth? c = some width) :
      Form c fun modes _ cur => do
        let (code, stop) ← readHex cur.pos c width (cur.advance 2)
        return (.leaf (modes.literal code) cur.pos (cur.pos + 2), stop)
  | octal : Form '0' fun modes _ cur => do
      let (code, stop) ← readOctal cur.pos '0' (cur.advance 2)
      return (.leaf (modes.literal code) cur.pos (cur.pos + 2), stop)
  | numbered {c : Char} (h : isDigitChar c = true) :
      Form c fun modes _ cur => readNumbered modes cur.pos c (cur.advance 2)
  | named : Form 'k' fun _ _ cur => readNamed cur.pos (cur.advance 2)
  | general : Form 'g' fun _ groups cur => readGeneral cur.pos groups (cur.advance 2)
  | quoted : Form 'Q' fun modes _ cur => .ok (readQuoted modes (cur.advance 2))
  | unknown {c : Char} : Form c fun _ _ cur => .fail (.unknownEscape c) cur.pos

/-- The character behind the backslash decides which of the forms an escape
    has, whatever flags are in force and however the text goes on. -/
theorem exists_form (c : Char) : ∃ f, Form c f ∧
    ∀ (modes : Modes) (groups : Nat) (cur : Cursor) (rest : Text), cur.rest = '\\' :: c :: rest →
      Escape.read modes groups cur = f modes groups cur := by
  -- each test on the character either settles the form or drops out of the reader
  suffices h : ∃ f, Form c f ∧ ∀ modes groups pos rest,
      Escape.read modes groups ⟨pos, '\\' :: c :: rest⟩ =
        f modes groups ⟨pos, '\\' :: c :: rest⟩ by
    obtain ⟨f, hform, hread⟩ := h
    refine ⟨f, hform, fun modes groups cur rest hrest => ?_⟩
    obtain ⟨pos, text⟩ := cur
    obtain rfl : text = '\\' :: c :: rest := hrest
    exact hread modes groups pos rest
  have hread := fun modes groups pos rest =>
    Escape.read.eq_def modes groups ⟨pos, '\\' :: c :: rest⟩
  simp only [List.drop_succ_cons, List.drop_zero] at hread
  cases hshorthand : Shorthand.ofChar? c <;> simp only [hshorthand] at hread
  case some kind => exact ⟨_, .shorthand kind, hread⟩
  cases hanchor : Anchor.ofEscape? c <;> simp only [hanchor] at hread
  case some kind => exact ⟨_, .anchor kind, hread⟩
  cases hcontrol : control? c <;> simp only [hcontrol] at hread
  case some code => exact ⟨_, .literal (le_of_control? hcontrol), hread⟩
  by_cases hproperty : (c == 'p' || c == 'P') = true
  · simp only [if_pos hproperty] at hread
    exact ⟨_, .property (c == 'P'), hread⟩
  simp only [if_neg hproperty] at hread
  cases hwidth : hexWidth? c <;> simp only [hwidth] at hread
  case some width => exact ⟨_, .hexadecimal hwidth, hread⟩
  by_cases hzero : c = '0'
  · subst hzero
    exact ⟨_, .octal, hread⟩
  simp only [beq_iff_eq, hzero, if_false] at hread
  by_cases hdigit : isDigitChar c = true
  · simp only [if_pos hdigit] at hread
    exact ⟨_, .numbered hdigit, hread⟩
  simp only [if_neg hdigit] at hread
  by_cases hk : c = 'k'
  · subst hk
    exact ⟨_, .named, hread⟩
  by_cases hg : c = 'g'
  · subst hg
    exact ⟨_, .general, hread⟩
  by_cases hquote : c = 'Q'
  · subst hquote
    exact ⟨_, .quoted, hread⟩
  simp only [hk, hg, hquote, if_false] at hread
  by_cases hself : (isAlphanumeric c || c == '_') = true
  · exact ⟨_, .unknown, fun modes groups pos rest => (hread modes groups pos rest).trans (if_pos hself)⟩
  · exact ⟨_, .literal (toNat_le_maxCodePoint c), fun modes groups pos rest =>
      (hread modes groups pos rest).trans (if_neg hself)⟩

theorem read_eq_readQuoted {modes : Modes} {groups : Nat} {cur : Cursor} {rest : Text}
    (hrest : cur.rest = '\\' :: 'Q' :: rest) :
    Escape.read modes groups cur = .ok (readQuoted modes (cur.advance 2)) := by
  simp only [Escape.read, hrest]
  rfl

theorem read_eq_readNamed {modes : Modes} {groups : Nat} {cur : Cursor} {rest : Text}
    (hrest : cur.rest = '\\' :: 'k' :: rest) :
    Escape.read modes groups cur = readNamed cur.pos (cur.advance 2) := by
  simp only [Escape.read, hrest]
  rfl

theorem read_eq_readGeneral {modes : Modes} {groups : Nat} {cur : Cursor} {rest : Text}
    (hrest : cur.rest = '\\' :: 'g' :: rest) :
    Escape.read modes groups cur = readGeneral cur.pos groups (cur.advance 2) := by
  simp only [Escape.read, hrest]
  rfl

theorem exists_cons_of_read {modes : Modes} {groups : Nat} {cur after : Cursor} {reading : Reading}
    {rest : Text} (hrest : cur.rest = '\\' :: rest)
    (h : Escape.read modes groups cur = .ok (reading, after)) : ∃ c rest', rest = c :: rest' := by
  cases rest with
  | nil => simp [Escape.read, hrest] at h
  | cons c rest' => exact ⟨c, rest', rfl⟩

/-- The openings of a target, with what closes them. -/
theorem closing?_cases {opening terminator : Char} (h : closing? opening = some terminator) :
    (opening = '<' ∧ terminator = '>') ∨ (opening = '\'' ∧ terminator = '\'') ∨
      (opening = '\x7b' ∧ terminator = '\x7d') := by
  unfold closing? at h
  split at h
  next => exact .inl ⟨rfl, (Option.some.inj h).symm⟩
  next => exact .inr (.inl ⟨rfl, (Option.some.inj h).symm⟩)
  next => exact .inr (.inr ⟨rfl, (Option.some.inj h).symm⟩)
  next => simp at h

/-- Behind `\g` every opening but a brace begins a call. -/
theorem readGeneral_call {start groups : Nat} {cur : Cursor} {opening terminator : Char}
    {rest : Text} (hrest : cur.rest = opening :: rest) (h : closing? opening = some terminator)
    (hbrace : opening ≠ '\x7b') :
    readGeneral start groups cur = readGeneral.call start groups cur terminator := by
  rcases closing?_cases h with ⟨rfl, rfl⟩ | ⟨rfl, rfl⟩ | ⟨rfl, rfl⟩
  · simp only [readGeneral, hrest]
  · simp only [readGeneral, hrest]
  · exact absurd rfl hbrace

/-- Without an opening, digits follow. -/
theorem readGeneral_bare {start groups : Nat} {cur : Cursor}
    (h : cur.rest.head?.bind closing? = none) :
    readGeneral start groups cur =
      let sign := if cur.rest.head? == some '-' then ['-'] else []
      let (digits, after) := (cur.advance sign.length).run isDecimal
      if digits.isEmpty then .fail .incompleteReference start
      else backreference start groups (sign ++ digits) after := by
  unfold readGeneral
  split
  next hrest => simp [hrest, closing?] at h
  next hrest => simp [hrest, closing?] at h
  next hrest => simp [hrest, closing?] at h
  next => rfl

/-! ## Section 4: Reading an escape -/

variable {modes : Modes} {start groups : Nat} {cur after : Cursor} {reading : Reading}

section Reference

/-! A reader of references stands behind the start of its escape, which the
    leaf and its faults go back to. -/

variable {origin : Cursor}

theorem readNumbered_spec {first : Char} (hfirst : isDigitChar first = true)
    (h : readNumbered modes origin.pos first cur = .ok (reading, after)) :
    cur.Reaches after ∧ reading.IsSound modes groups origin after := by
  have hmore : ((cur.rest.take 2).takeWhile isDigitChar).length ≤ cur.rest.length :=
    ((List.takeWhile_sublist _).trans (List.take_sublist _ _)).length_le
  unfold readNumbered at h
  dsimp only at h
  split at h
  · obtain ⟨code, hcode, hpair⟩ := Read.bind_eq_ok.mp h
    obtain ⟨rfl, rfl⟩ := Prod.mk.inj (Except.ok.inj hpair)
    exact ⟨Cursor.reaches_advance hmore, Reading.isSound_leaf (.literal (le_of_octalCode hcode))⟩
  · obtain ⟨rfl, rfl⟩ := Prod.mk.inj (Except.ok.inj h)
    refine ⟨Cursor.reaches_advance ?_, .backreference (.inl ?_)⟩
    · simp only [List.length_take, List.length_cons]
      omega
    · simp only [isDigitText, List.take_succ_cons, List.isEmpty_cons, Bool.not_false,
        Bool.true_and, List.all_eq_true, List.mem_cons]
      rintro c (rfl | hc)
      · exact hfirst
      · exact List.all_eq_true.mp List.all_takeWhile c (List.mem_of_mem_take hc)

theorem readNamed_spec (h : readNamed origin.pos cur = .ok (reading, after)) :
    cur.Reaches after ∧ reading.IsSound modes groups origin after := by
  unfold readNamed at h
  split at h
  · simp at h
  · next hclosing =>
    obtain ⟨c, hhead, -⟩ := Option.bind_eq_some_iff.mp hclosing
    obtain ⟨rest, hrest⟩ := List.head?_eq_some_iff.mp hhead
    obtain ⟨⟨name, after'⟩, hname, hpair⟩ := Read.bind_eq_ok.mp h
    obtain ⟨rfl, rfl⟩ := Prod.mk.inj (Except.ok.inj hpair)
    have hreach := (Cursor.passes_next hrest).reaches.trans (Cursor.passes_of_readName hname).reaches
    exact ⟨hreach, .backreference (.inr (Cursor.isGroupName_of_readName hname))⟩

theorem backreference_spec {target : Text} {stop : Cursor}
    (h : backreference origin.pos groups target stop = .ok (reading, after)) :
    after = stop ∧ ∀ modes, reading.IsSound modes groups origin after := by
  obtain ⟨reference, hreference, hpair⟩ := Read.bind_eq_ok.mp h
  obtain ⟨rfl, rfl⟩ := Prod.mk.inj (Except.ok.inj hpair)
  exact ⟨rfl, fun modes => .backreference (isTarget_of_absoluteReference hreference)⟩

/-- A call is one of the whole pattern if its target is a plain zero. -/
theorem call_spec {c terminator : Char} {rest : Text} (hrest : cur.rest = c :: rest)
    (hwhole : ['\\', 'g', c, '0', terminator] ∈ wholeCalls)
    (horigin : origin.rest = '\\' :: 'g' :: cur.rest)
    (h : readGeneral.call origin.pos groups cur terminator = .ok (reading, after)) :
    cur.Reaches after ∧ reading.IsSound modes groups origin after := by
  unfold readGeneral.call at h
  split at h
  · simp at h
  · next hfound =>
    have hreach := (Cursor.passes_next hrest).reaches.trans (Cursor.passes_of_upTo? hfound).reaches
    dsimp only at h
    split at h
    · next hzero =>
      obtain ⟨rfl, rfl⟩ := Prod.mk.inj (Except.ok.inj h)
      refine ⟨hreach, .whole hwhole ?_⟩
      obtain rfl := eq_of_beq hzero
      obtain ⟨-, ⟨tail, htail⟩, rfl⟩ := Cursor.upTo?_eq_some_iff.mp hfound
      rw [Cursor.advance_rest, hrest, List.drop_succ_cons, List.drop_zero] at htail
      simp [horigin, hrest, htail]
    · obtain ⟨reference, hreference, hpair⟩ := Read.bind_eq_ok.mp h
      obtain ⟨rfl, rfl⟩ := Prod.mk.inj (Except.ok.inj hpair)
      exact ⟨hreach, .recursion hreference⟩

theorem readGeneral_spec (horigin : origin.rest = '\\' :: 'g' :: cur.rest)
    (h : readGeneral origin.pos groups cur = .ok (reading, after)) :
    cur.Reaches after ∧ reading.IsSound modes groups origin after := by
  unfold readGeneral at h
  split at h
  · next hrest => exact call_spec hrest (by decide) horigin h
  · next hrest => exact call_spec hrest (by decide) horigin h
  · next hrest =>
    split at h
    · simp at h
    · next hfound =>
      obtain ⟨rfl, hsound⟩ := backreference_spec h
      exact ⟨(Cursor.passes_next hrest).reaches.trans (Cursor.passes_of_upTo? hfound).reaches,
        hsound modes⟩
  · dsimp only at h
    obtain ⟨-, hback⟩ := Read.guard_eq_ok.mp h
    obtain ⟨rfl, hsound⟩ := backreference_spec hback
    refine ⟨Cursor.Reaches.trans ?_ (Cursor.reaches_run _ isDecimal), hsound modes⟩
    split
    · next hminus =>
      obtain ⟨rest, hrest⟩ := List.head?_eq_some_iff.mp (eq_of_beq hminus)
      exact (Cursor.passes_next hrest).reaches
    · exact Cursor.Reaches.refl cur

end Reference

theorem isPlain_of_mem_quotedLeaves {pos : Nat} {text : Text} {leaf : Leaf}
    (h : leaf ∈ quotedLeaves modes pos text) : leaf.label.IsPlain modes := by
  induction text generalizing pos with
  | nil => simp [quotedLeaves] at h
  | cons c rest ih =>
    rcases List.mem_cons.mp h with rfl | hrest
    · exact .literal (toNat_le_maxCodePoint c)
    · exact ih hrest

/-- What is quoted from the cursor on, and where it ends: at the first `\E`, or
    else with the pattern. -/
inductive Quotes (cur : Cursor) : Text → Cursor → Prop where
  | ended {quoted : Text} (h : Cursor.beforePair? '\\' 'E' cur.rest = some quoted) :
      Quotes cur quoted (cur.advance (quoted.length + 2))
  | unended (h : Cursor.beforePair? '\\' 'E' cur.rest = none) :
      Quotes cur cur.rest (cur.advance cur.rest.length)

theorem Quotes.reaches {quoted : Text} (h : Quotes cur quoted after) : cur.Reaches after := by
  cases h with
  | ended h => exact Cursor.reaches_advance (Cursor.length_beforePair? h)
  | unended => exact Cursor.reaches_advance (Nat.le_refl _)

theorem Quotes.readQuoted_eq {quoted : Text} (h : Quotes cur quoted after) (modes : Modes) :
    readQuoted modes cur = (⟨quotedLeaves modes cur.pos quoted, none⟩, after) := by
  cases h with
  | ended h => simp only [readQuoted, Cursor.upToPair?, h, Option.map_some]
  | unended h => simp only [readQuoted, Cursor.upToPair?, h, Option.map_none]

theorem exists_quotes (cur : Cursor) : ∃ quoted after, Quotes cur quoted after := by
  cases h : Cursor.beforePair? '\\' 'E' cur.rest with
  | some quoted => exact ⟨quoted, _, .ended h⟩
  | none => exact ⟨cur.rest, _, .unended h⟩

/-- A quote is read as a literal for each of its characters. -/
theorem quotes_of_readQuoted (h : readQuoted modes cur = (reading, after)) :
    ∃ quoted, Quotes cur quoted after ∧ reading = ⟨quotedLeaves modes cur.pos quoted, none⟩ := by
  obtain ⟨quoted, stop, hquotes⟩ := exists_quotes cur
  obtain ⟨rfl, rfl⟩ := Prod.mk.inj ((hquotes.readQuoted_eq modes).symm.trans h)
  exact ⟨quoted, hquotes, rfl⟩

theorem readQuoted_spec {origin : Cursor} (h : readQuoted modes cur = (reading, after)) :
    cur.Reaches after ∧ reading.IsSound modes groups origin after := by
  obtain ⟨quoted, hquotes, rfl⟩ := quotes_of_readQuoted h
  exact ⟨hquotes.reaches, .plain fun leaf hleaf => isPlain_of_mem_quotedLeaves hleaf⟩

theorem isCanonical_of_readProperty {negated : Bool} {chars : CharSet}
    (h : readProperty start negated cur = .ok (chars, after)) : chars.IsCanonical := by
  -- the property is negated or it is not, whatever the caret says
  have hset : ∀ wide : Bool,
      CharSet.IsCanonical (if wide then .everything else .unicodeProperty) := by
    rintro (_ | _)
    · exact CharSet.isCanonical_union _ _
    · exact CharSet.isCanonical_everything
  obtain ⟨⟨written, after'⟩, -, hrest⟩ := Read.bind_eq_ok.mp h
  obtain ⟨-, hpair⟩ := Read.guard_eq_ok.mp hrest
  obtain ⟨rfl, -⟩ := Prod.mk.inj (Except.ok.inj hpair)
  exact hset _

/-- Reading an escape passes it, and its reading is sound. -/
theorem read_spec {rest : Text} (hrest : cur.rest = '\\' :: rest)
    (h : Escape.read modes groups cur = .ok (reading, after)) :
    cur.Passes after ∧ reading.IsSound modes groups cur after := by
  obtain ⟨c, rest, rfl⟩ := exists_cons_of_read hrest h
  have hnext : cur.Passes (cur.advance 2) := Cursor.passes_next_two hrest
  -- readers that go on behind the two characters
  have hbehind : (cur.advance 2).Reaches after ∧ reading.IsSound modes groups cur after →
      cur.Passes after ∧ reading.IsSound modes groups cur after :=
    fun ⟨hreach, hsound⟩ => ⟨hnext.trans_reaches hreach, hsound⟩
  obtain ⟨f, hform, hread⟩ := exists_form c
  rw [hread modes groups cur rest hrest] at h
  cases hform with
  | shorthand kind =>
    obtain ⟨rfl, rfl⟩ := Prod.mk.inj (Except.ok.inj h)
    exact ⟨hnext, Reading.isSound_leaf (.charClass (Shorthand.isCanonical_chars _) (Nat.le_refl _))⟩
  | anchor kind =>
    obtain ⟨rfl, rfl⟩ := Prod.mk.inj (Except.ok.inj h)
    exact ⟨hnext, Reading.isSound_leaf .anchor⟩
  | literal hcode =>
    obtain ⟨rfl, rfl⟩ := Prod.mk.inj (Except.ok.inj h)
    exact ⟨hnext, Reading.isSound_leaf (.literal hcode)⟩
  | property negated =>
    obtain ⟨⟨chars, stop⟩, hproperty, hpair⟩ := Read.bind_eq_ok.mp h
    obtain ⟨rfl, rfl⟩ := Prod.mk.inj (Except.ok.inj hpair)
    have hreach := reaches_of_readProperty hproperty
    have hsource : 2 ≤ (cur.rest.take (stop.pos - cur.pos)).length := by
      have hpos := hreach.pos_le
      rw [Cursor.advance_pos] at hpos
      rw [(hnext.reaches.trans hreach).length_take]
      omega
    exact hbehind ⟨hreach,
      Reading.isSound_leaf (.charClass (isCanonical_of_readProperty hproperty) hsource)⟩
  | hexadecimal hwidth =>
    obtain ⟨⟨code, stop⟩, hhex, hpair⟩ := Read.bind_eq_ok.mp h
    obtain ⟨rfl, rfl⟩ := Prod.mk.inj (Except.ok.inj hpair)
    obtain ⟨hreach, hle⟩ := reaches_of_readHex hhex
    exact hbehind ⟨hreach, Reading.isSound_leaf (.literal hle)⟩
  | octal =>
    obtain ⟨⟨code, stop⟩, hoctal, hpair⟩ := Read.bind_eq_ok.mp h
    obtain ⟨rfl, rfl⟩ := Prod.mk.inj (Except.ok.inj hpair)
    obtain ⟨hreach, hle⟩ := reaches_of_readOctal hoctal
    exact hbehind ⟨hreach, Reading.isSound_leaf (.literal hle)⟩
  | numbered hdigit => exact hbehind (readNumbered_spec hdigit h)
  | named => exact hbehind (readNamed_spec h)
  | general => exact hbehind (readGeneral_spec (by rw [Cursor.advance_rest, hrest]; rfl) h)
  | quoted => exact hbehind (readQuoted_spec (Except.ok.inj h))
  | unknown => simp at h

end Escape

namespace Bracket

/-! ## Section 5: Reading a bracket class -/

variable {cur after : Cursor} {start fuel : Nat} {isFirst : Bool} {members result : Members}

/-- The ways to go on from a backslash in a class, by the character behind
    it. -/
inductive Form : Char → (Cursor → Read (Atom × Cursor)) → Prop where
  | pair {c : Char} (atom : Atom) : Form c fun cur => .ok (atom, cur.advance 2)
  | property {c : Char} (negated : Bool) : Form c fun cur => do
      let (chars, stop) ← Escape.readProperty cur.pos negated (cur.advance 2)
      return (⟨chars, none, true⟩, stop)
  | hexadecimal {c : Char} {width : Nat} (h : Escape.hexWidth? c = some width) :
      Form c fun cur => do
        let (code, stop) ← Escape.readHex cur.pos c width (cur.advance 2)
        return (.char code, stop)
  | octal {c : Char} : Form c fun cur => do
      let (code, stop) ← Escape.readOctal cur.pos c (cur.advance 2)
      return (.char code, stop)
  | unknown {c : Char} : Form c fun cur => .fail (.unknownClassEscape c) cur.pos

theorem exists_form (c : Char) : ∃ f, Form c f ∧
    ∀ (cur : Cursor) (rest : Text), cur.rest = '\\' :: c :: rest → readAtom cur = f cur := by
  -- each test on the character either settles the form or drops out of the reader
  suffices h : ∃ f, Form c f ∧ ∀ pos rest,
      readAtom ⟨pos, '\\' :: c :: rest⟩ = f ⟨pos, '\\' :: c :: rest⟩ by
    obtain ⟨f, hform, hread⟩ := h
    refine ⟨f, hform, fun cur rest hrest => ?_⟩
    obtain ⟨pos, text⟩ := cur
    obtain rfl : text = '\\' :: c :: rest := hrest
    exact hread pos rest
  have hread := fun pos rest => readAtom.eq_def ⟨pos, '\\' :: c :: rest⟩
  simp only at hread
  cases hshorthand : Shorthand.ofChar? c <;> simp only [hshorthand] at hread
  case some kind => exact ⟨_, .pair ⟨kind.chars, none, false⟩, hread⟩
  by_cases hproperty : (c == 'p' || c == 'P') = true
  · simp only [if_pos hproperty] at hread
    exact ⟨_, .property (c == 'P'), hread⟩
  simp only [if_neg hproperty] at hread
  by_cases hb : (c == 'b') = true
  · simp only [if_pos hb] at hread
    exact ⟨_, .pair (.char 0x08), hread⟩
  simp only [if_neg hb] at hread
  cases hcontrol : Escape.control? c <;> simp only [hcontrol] at hread
  case some code => exact ⟨_, .pair (.char code), hread⟩
  cases hwidth : Escape.hexWidth? c <;> simp only [hwidth] at hread
  case some width => exact ⟨_, .hexadecimal hwidth, hread⟩
  by_cases hoctal : Escape.isOctal c = true
  · simp only [if_pos hoctal] at hread
    exact ⟨_, .octal, hread⟩
  simp only [if_neg hoctal] at hread
  by_cases hself : (isAlphanumeric c || c == '_') = true
  · simp only [if_pos hself] at hread
    exact ⟨_, .unknown, hread⟩
  · simp only [if_neg hself] at hread
    exact ⟨_, .pair (.char c.toNat), hread⟩

/-- Without a backslash a character is a member of its own. -/
theorem readAtom_plain {c : Char} {rest : Text} (hrest : cur.rest = c :: rest) (hc : c ≠ '\\') :
    readAtom cur = .ok (.char c.toNat, cur.advance 1) := by
  unfold readAtom
  rw [hrest]
  simp [hc]

/-- A member is a character of its own or an escape, unless the text ends
    where it should stand. -/
theorem readAtom_cases (cur : Cursor) :
    readAtom cur = .fail .unclosedClass cur.pos ∨
      (∃ c rest, cur.rest = c :: rest ∧ c ≠ '\\' ∧
        readAtom cur = .ok (.char c.toNat, cur.advance 1)) ∨
      ∃ c rest, cur.rest = '\\' :: c :: rest := by
  cases hrest : cur.rest with
  | nil => exact .inl (by simp only [readAtom, hrest])
  | cons b rest =>
    by_cases hb : b = '\\'
    · subst hb
      cases rest with
      | nil => exact .inl (by simp only [readAtom, hrest])
      | cons c rest => exact .inr (.inr ⟨c, rest, rfl⟩)
    · exact .inr (.inl ⟨b, rest, rfl, hb, readAtom_plain hrest hb⟩)

theorem cases_of_readAtom {atom : Atom} (h : readAtom cur = .ok (atom, after)) :
    (∃ c rest, cur.rest = c :: rest ∧ c ≠ '\\' ∧ atom = .char c.toNat ∧ after = cur.advance 1) ∨
      ∃ c rest, cur.rest = '\\' :: c :: rest := by
  rcases readAtom_cases cur with hfail | ⟨c, rest, hrest, hc, hplain⟩ | hescape
  · simp [hfail] at h
  · obtain ⟨rfl, rfl⟩ := Prod.mk.inj (Except.ok.inj (hplain.symm.trans h))
    exact .inl ⟨c, rest, hrest, hc, rfl, rfl⟩
  · exact .inr hescape

theorem passes_of_readAtom {atom : Atom} (h : readAtom cur = .ok (atom, after)) :
    cur.Passes after := by
  rcases cases_of_readAtom h with ⟨c, rest, hrest, -, -, rfl⟩ | ⟨c, rest, hrest⟩
  · exact Cursor.passes_next hrest
  have hnext : cur.Passes (cur.advance 2) := Cursor.passes_next_two hrest
  obtain ⟨f, hform, hread⟩ := exists_form c
  rw [hread cur rest hrest] at h
  cases hform with
  | pair _ =>
    obtain ⟨-, rfl⟩ := Prod.mk.inj (Except.ok.inj h)
    exact hnext
  | property _ =>
    obtain ⟨⟨chars, stop⟩, hproperty, hpair⟩ := Read.bind_eq_ok.mp h
    obtain ⟨-, rfl⟩ := Prod.mk.inj (Except.ok.inj hpair)
    exact hnext.trans_reaches (Escape.reaches_of_readProperty hproperty)
  | hexadecimal _ =>
    obtain ⟨⟨code, stop⟩, hhex, hpair⟩ := Read.bind_eq_ok.mp h
    obtain ⟨-, rfl⟩ := Prod.mk.inj (Except.ok.inj hpair)
    exact hnext.trans_reaches (Escape.reaches_of_readHex hhex).1
  | octal =>
    obtain ⟨⟨code, stop⟩, hoctal, hpair⟩ := Read.bind_eq_ok.mp h
    obtain ⟨-, rfl⟩ := Prod.mk.inj (Except.ok.inj hpair)
    exact hnext.trans_reaches (Escape.reaches_of_readOctal hoctal).1
  | unknown => simp at h

/-- At the cursor a range goes on: a dash with a character behind it that
    does not close the class. -/
def GoesOn (cur : Cursor) : Prop :=
  ∃ next rest, cur.rest = '-' :: next :: rest ∧ next ≠ ']'

/-- A member that no range goes on from is read alone. -/
theorem readItem_alone {low : Atom} (hlow : readAtom cur = .ok (low, after))
    (halone : low.single = none ∨ ¬ GoesOn after) :
    readItem cur = .ok ((low.chars, low.isProperty), after) := by
  simp only [readItem, hlow, bind, Except.bind]
  split
  next lo next rest hsingle hdash =>
    rcases halone with hnone | halone
    · simp [hnone] at hsingle
    · have hclose : next = ']' := Classical.byContradiction fun hne => halone ⟨next, rest, hdash, hne⟩
      rw [if_pos (beq_iff_eq.mpr hclose)]
      rfl
  next => rfl

/-- A range is read with both of its ends. -/
theorem readItem_of_goesOn {low high : Atom} {lo hi : CodePoint} {afterLow : Cursor}
    (hlow : readAtom cur = .ok (low, afterLow)) (hlo : low.single = some lo)
    (hgoes : GoesOn afterLow) (hhigh : readAtom (afterLow.advance 1) = .ok (high, after))
    (hhi : high.single = some hi) :
    readItem cur = if hi < lo then .fail (.reversedRange lo hi) cur.pos
      else .ok ((.span lo hi, low.isProperty), after) := by
  obtain ⟨next, rest, hdash, hne⟩ := hgoes
  simp only [readItem, hlow, bind, Except.bind, hlo, hdash]
  rw [if_neg (by simpa using hne), hhigh]
  simp only [hhi]
  rfl

/-- A member is read alone or as a range in order. -/
theorem readItem_cases {item : CharSet × Bool} (h : readItem cur = .ok (item, after)) :
    (∃ low, readAtom cur = .ok (low, after) ∧ (low.single = none ∨ ¬ GoesOn after) ∧
      item = (low.chars, low.isProperty)) ∨
    ∃ low afterLow lo high hi, readAtom cur = .ok (low, afterLow) ∧ low.single = some lo ∧
      GoesOn afterLow ∧ readAtom (afterLow.advance 1) = .ok (high, after) ∧
      high.single = some hi ∧ ¬ hi < lo ∧ item = (.span lo hi, low.isProperty) := by
  obtain ⟨⟨low, afterLow⟩, hlow, h⟩ := Read.bind_eq_ok.mp h
  dsimp only at h
  split at h
  next lo next rest hlo hdash =>
    split at h
    next hclose =>
      obtain ⟨rfl, rfl⟩ := Prod.mk.inj (Except.ok.inj h)
      refine .inl ⟨low, hlow, .inr fun ⟨next', rest', hdash', hne⟩ => hne ?_, rfl⟩
      rw [hdash] at hdash'
      -- a dash in front of the closing bracket is a member of its own
      exact (List.cons.inj (List.cons.inj hdash').2).1.symm.trans (eq_of_beq hclose)
    next hclose =>
      obtain ⟨⟨high, afterHigh⟩, hhigh, hpair⟩ := Read.bind_eq_ok.mp h
      dsimp only at hpair
      split at hpair
      next => simp at hpair
      next hi hhi =>
        obtain ⟨horder, hpair⟩ := Read.guard_eq_ok.mp hpair
        obtain ⟨rfl, rfl⟩ := Prod.mk.inj (Except.ok.inj hpair)
        exact .inr ⟨low, afterLow, lo, high, hi, hlow, hlo,
          ⟨next, rest, hdash, by simpa using hclose⟩, hhigh, hhi, horder, rfl⟩
  next hnorange =>
    obtain ⟨rfl, rfl⟩ := Prod.mk.inj (Except.ok.inj h)
    refine .inl ⟨low, hlow, ?_, rfl⟩
    cases hsingle : low.single with
    | none => exact .inl rfl
    | some lo => exact .inr fun ⟨next, rest, hdash, _⟩ => hnorange lo next rest hsingle hdash

theorem passes_of_readItem {item : CharSet × Bool} (h : readItem cur = .ok (item, after)) :
    cur.Passes after := by
  rcases readItem_cases h with ⟨low, hlow, -, -⟩ |
    ⟨low, afterLow, lo, high, hi, hlow, -, ⟨next, rest, hdash, -⟩, hhigh, -⟩
  · exact passes_of_readAtom hlow
  · have hreach := (Cursor.passes_next hdash).reaches.trans (passes_of_readAtom hhigh).reaches
    exact (passes_of_readAtom hlow).trans_reaches hreach

/-- A POSIX class is found by its opening and the first end behind it. -/
theorem posixName?_eq_some_iff {name : Text} : posixName? cur = some (name, after) ↔
    (∃ rest, cur.rest = '[' :: ':' :: rest) ∧
      Cursor.beforePair? ':' ']' (cur.advance 2).rest = some name ∧
      after = (cur.advance 2).advance (name.length + 2) := by
  rw [← Cursor.upToPair?_eq_some_iff]
  unfold posixName?
  split
  next rest hrest => exact (and_iff_right ⟨rest, hrest⟩).symm
  next hnone => simpa using fun rest hrest => absurd hrest (hnone rest)

theorem passes_of_posixName? {name : Text} (h : posixName? cur = some (name, after)) :
    cur.Passes after := by
  obtain ⟨⟨rest, hrest⟩, hfound, hafter⟩ := posixName?_eq_some_iff.mp h
  exact (Cursor.passes_next_two hrest).trans_reaches
    (Cursor.passes_of_upToPair? (Cursor.upToPair?_eq_some_iff.mpr ⟨hfound, hafter⟩)).reaches

/-- A closing bracket ends the members. -/
theorem readMembers_close {rest : Text} (hrest : cur.rest = ']' :: rest) (start fuel : Nat)
    (members : Members) :
    readMembers start (fuel + 1) false members cur = .ok (members, cur.advance 1) := by
  simp only [readMembers, hrest]
  rfl

/-- The members go on behind a POSIX class. -/
theorem readMembers_posix {written : Text} (hname : posixName? cur = some (written, after))
    (start fuel : Nat) (isFirst : Bool) (members : Members) :
    readMembers start (fuel + 1) isFirst members cur = (do
      let chars ← readPosix cur.pos written
      readMembers start fuel false
        { members with sets := chars :: members.sets, hasPosix := true } after) := by
  obtain ⟨⟨rest, hrest⟩, -⟩ := posixName?_eq_some_iff.mp hname
  simp [readMembers, hrest, hname]

/-- The members go on behind a member that is no POSIX class. -/
theorem readMembers_member (hne : cur.rest ≠ [])
    (hopen : isFirst = true ∨ cur.rest.head? ≠ some ']') (hname : posixName? cur = none)
    (start fuel : Nat) (members : Members) :
    readMembers start (fuel + 1) isFirst members cur = (do
      let ((chars, isProperty), after) ← readItem cur
      readMembers start fuel false
        { members with
          sets := chars :: members.sets
          hasProperty := members.hasProperty || isProperty } after) := by
  obtain ⟨c, rest, hrest⟩ := List.exists_cons_of_ne_nil hne
  have hclose : (c == ']' && !isFirst) = false := by
    rcases hopen with rfl | hhead
    · simp
    · have hne : c ≠ ']' := by simpa [hrest] using hhead
      simp [hne]
  simp [readMembers, hrest, hclose, hname]

/-- The members end with the closing bracket, or go on behind one of them. -/
theorem readMembers_cases
    (h : readMembers start (fuel + 1) isFirst members cur = .ok (result, after)) :
    (isFirst = false ∧ (∃ rest, cur.rest = ']' :: rest) ∧ result = members ∧
      after = cur.advance 1) ∨
    (∃ written next chars, posixName? cur = some (written, next) ∧
      readPosix cur.pos written = .ok chars ∧
      readMembers start fuel false
        { members with sets := chars :: members.sets, hasPosix := true } next =
          .ok (result, after)) ∨
    ∃ item next, (isFirst = true ∨ cur.rest.head? ≠ some ']') ∧ posixName? cur = none ∧
      readItem cur = .ok (item, next) ∧
      readMembers start fuel false
        { members with
          sets := item.1 :: members.sets
          hasProperty := members.hasProperty || item.2 } next = .ok (result, after) := by
  unfold readMembers at h
  split at h
  next => simp at h
  next c rest hrest =>
    split at h
    next hclose =>
      obtain ⟨rfl, rfl⟩ := Prod.mk.inj (Except.ok.inj h)
      rw [Bool.and_eq_true, beq_iff_eq, Bool.not_eq_true'] at hclose
      exact .inl ⟨hclose.2, ⟨rest, by rw [hrest, hclose.1]⟩, rfl, rfl⟩
    next hclose =>
      split at h
      next hname =>
        obtain ⟨chars, hchars, hmore⟩ := Read.bind_eq_ok.mp h
        exact .inr (.inl ⟨_, _, chars, hname, hchars, hmore⟩)
      next hname =>
        obtain ⟨⟨item, next⟩, hitem, hmore⟩ := Read.bind_eq_ok.mp h
        refine .inr (.inr ⟨item, next, ?_, hname, hitem, hmore⟩)
        -- only as the first member a closing bracket is one
        cases isFirst with
        | true => exact .inl rfl
        | false =>
          refine .inr fun hhead => hclose ?_
          obtain rfl : c = ']' := by simpa [hrest] using hhead
          rfl

theorem passes_of_readMembers
    (h : readMembers start fuel isFirst members cur = .ok (result, after)) :
    cur.Passes after := by
  induction fuel generalizing isFirst members cur with
  | zero => simp [readMembers] at h
  | succ fuel ih =>
    rcases readMembers_cases h with ⟨-, ⟨rest, hrest⟩, -, rfl⟩ |
      ⟨written, next, chars, hname, -, hmore⟩ | ⟨item, next, -, -, hitem, hmore⟩
    · exact Cursor.passes_next hrest
    · exact (passes_of_posixName? hname).trans_reaches (ih hmore).reaches
    · exact (passes_of_readItem hitem).trans_reaches (ih hmore).reaches

/-- Reading a bracket class passes it, and its label is that of a class. -/
theorem read_spec {modes : Modes} {rest : Text} {leaf : Escape.Leaf}
    (hrest : cur.rest = '[' :: rest) (h : Bracket.read modes cur = .ok (leaf, after)) :
    cur.Passes after ∧ leaf.label.IsPlain modes := by
  obtain ⟨⟨members, stop⟩, hmembers, hpair⟩ := Read.bind_eq_ok.mp h
  obtain ⟨rfl, rfl⟩ := Prod.mk.inj (Except.ok.inj hpair)
  have haccepts : (modes.accepts (.unionAll members.sets.reverse)).IsCanonical :=
    modes.isCanonical_accepts (CharSet.isCanonical_unionAll _)
  have hnext : cur.Passes (cur.advance 1) := Cursor.passes_next hrest
  have hpasses : (cur.advance 1).Passes stop := by
    refine Cursor.Reaches.trans_passes ?_ (passes_of_readMembers hmembers)
    split
    · next hcaret =>
      obtain ⟨tail, htail⟩ := List.head?_eq_some_iff.mp (eq_of_beq hcaret)
      exact (Cursor.passes_next htail).reaches
    · exact Cursor.Reaches.refl _
  refine ⟨hnext.trans_reaches hpasses.reaches, .charClass ?chars ?source⟩
  case chars =>
    split
    · exact CharSet.isCanonical_complement haccepts
    · exact haccepts
  case source =>
    have hpos := hpasses.2
    rw [Cursor.advance_pos] at hpos
    rw [(hnext.reaches.trans hpasses.reaches).length_take]
    omega

end Bracket

end RegexInsight
