import Mathlib
import RegexInsight.Explanation
import RegexInsight.Proofs.Pattern.Gap
import RegexInsight.Proofs.Pattern.RoundTrip
import RegexInsight.Proofs.Pattern.Token

/-! # The text of a quantifier

    An explanation shows a quantifier by the text from the end of its
    operand to its own end.  Behind a character that stands for itself this
    text is read as the same quantifier exactly when nothing of the operand
    is left in it and all that was passed over is passed over in any mode:
    comments and empty quotes. -/

namespace RegexInsight

/-! ## Section 1: The text and what it should show -/

namespace Pattern

/-- The text from the end of the operand of a quantifier to its own end. -/
def quantifierText (p : Pattern) (n : Node) : Text :=
  slice p.text ((n.children.map Node.stop).headD n.start) n.stop

/-- The pattern is one quantifier over one literal character. -/
def IsRepetition (p : Pattern) (c : Char) (bounds : Bounds) (mode : QuantifierMode) : Prop :=
  ∃ mark mark', p.root = .node (.quantifier bounds mode) mark
    [.node (Modes.none.literal c.toNat) mark' []]

end Pattern

/-- Appended to a character, the text is read as a quantifier over it. -/
def RepeatsAfter (c : Char) (shown : Text) (bounds : Bounds) (mode : QuantifierMode) : Prop :=
  ∃ p, Pattern.parse (c :: shown) = .ok p ∧ p.IsRepetition c bounds mode

/-- The explanation of a quantifier is one part, which stores its text. -/
theorem partsOf_quantifier {p : Pattern} {n : Node} {bounds : Bounds} {mode : QuantifierMode}
    (hlabel : n.label = .quantifier bounds mode) (bodies : List (List Part)) :
    ∃ part, partsOf p n bodies = [part] ∧ part.quantifier = some (p.quantifierText n) := by
  have hparts : partsOf p n bodies =
      quantified (p.textOf n) (p.quantifierText n) bounds mode bodies.flatten := by
    simp only [partsOf, hlabel]
    rfl
  rw [hparts]
  unfold quantified
  dsimp only
  split
  next part =>
    split
    next => exact ⟨_, rfl, rfl⟩
    next => exact ⟨_, rfl, rfl⟩
  next => exact ⟨_, rfl, rfl⟩

/-! ## Section 2: What is passed over without flags -/

namespace ParserState

variable {s t : ParserState} {c : Char} {tail rest filler : Text} {fillers : List Text}

/-- Comments and empty quotes are passed over in one step. -/
theorem next_passedOver (hmodes : s.frame.modes = .none) (h : PassedOver filler)
    (hrest : s.cur.rest = filler ++ tail) : Next s (s.moveTo (s.cur.advance filler.length)) := by
  cases h with
  | @comment inner hinner =>
    have hopening : s.cur.rest = '(' :: '?' :: ('#' :: inner ++ ')' :: tail) := by simp [hrest]
    refine next_of_readAt hmodes hopening ?_
    have hbehind : (s.cur.advance 2).rest = '#' :: inner ++ ')' :: tail := by
      rw [Cursor.advance_rest, hopening]
      rfl
    -- the comment ends at the first parenthesis
    have hfound : (s.cur.advance 2).upTo? ')' =
        some ('#' :: inner, (s.cur.advance 2).advance (('#' :: inner).length + 1)) := by
      refine Cursor.upTo?_eq_some_iff.mpr ⟨?_, ⟨tail, hbehind⟩, rfl⟩
      intro hmem
      rcases List.mem_cons.mp hmem with heq | hmem
      · exact absurd heq (by decide)
      · exact hinner hmem
    have hlength : ('(' :: '?' :: '#' :: inner ++ [')']).length =
        2 + (('#' :: inner).length + 1) := by
      simp only [List.length_append, List.length_cons, List.length_nil]
      omega
    rw [readAt_extension hopening, hlength, ← Cursor.advance_advance]
    simp only [readExtension, hbehind, List.cons_append]
    simp only [hfound]
  | emptyQuote =>
    have hescape : s.cur.rest = '\\' :: 'Q' :: '\\' :: 'E' :: tail := hrest
    refine next_of_readAt hmodes hescape ?_
    have hbehind : (s.cur.advance 2).rest = '\\' :: 'E' :: tail := by
      rw [Cursor.advance_rest, hescape]
      rfl
    have hread : Escape.read s.frame.modes s.groups s.cur =
        .ok (⟨[], none⟩, (s.cur.advance 2).advance 2) := by
      rw [Escape.read_eq_readQuoted hescape]
      simp only [Escape.readQuoted, Cursor.upToPair?, hbehind]
      rfl
    rw [readAt_escape hescape, readEscape, hread, Cursor.advance_advance]
    rfl

/-- A character without a meaning of its own is read as a literal. -/
theorem next_literal (hmodes : s.frame.modes = .none) (hrest : s.cur.rest = c :: tail)
    (hc : c ∉ Literal.special) : Next s (s.readOne (Modes.none.literal c.toNat)) := by
  rw [← hmodes]
  exact next_of_readAt hmodes hrest (readAt_of_not_special hrest hc)

theorem mem_explicit_readOne (s : ParserState) (c : Char) :
    .build s.count (Modes.none.literal c.toNat) s.cur.pos (s.cur.pos + 1) [] ∈
      (s.readOne (Modes.none.literal c.toNat)).explicit :=
  (mem_explicit_addLeaf rfl).mpr (.inr rfl)

theorem not_special_of_isSpace (h : isSpace c = true) : c ∉ Literal.special := by
  intro hmem
  have hnone : (Literal.special.all fun d => !isSpace d) = true := by decide +kernel
  have hc := List.all_eq_true.mp hnone c hmem
  rw [h] at hc
  exact Bool.noConfusion hc

/-- A literal was read at the cursor of `s` or behind it. -/
def ReadsLiteral (s t : ParserState) : Prop :=
  ∃ c n, n ∈ t.explicit ∧ n.label = Modes.none.literal c ∧ s.cur.pos ≤ n.start

/-- What is passed over in any mode is passed over together. -/
theorem runsTo_passedOver (hmodes : s.frame.modes = .none) (hfillers : ∀ f ∈ fillers, PassedOver f)
    (hrest : s.cur.rest = fillers.flatten ++ tail) :
    ∃ cur : Cursor, cur.rest = tail ∧ s.RunsTo (s.moveTo cur) := by
  induction fillers generalizing s with
  | nil => exact ⟨s.cur, hrest, .refl⟩
  | cons filler fillers ih =>
    obtain ⟨hfirst, hothers⟩ := List.forall_mem_cons.mp hfillers
    rw [List.flatten_cons, List.append_assoc] at hrest
    have hnext := next_passedOver hmodes hfirst hrest
    have hbehind : (s.cur.advance filler.length).rest = fillers.flatten ++ tail := by
      rw [Cursor.advance_rest, hrest, List.drop_left]
    obtain ⟨cur, hcur, hruns⟩ :=
      ih (s := s.moveTo (s.cur.advance filler.length)) hmodes hothers hbehind
    exact ⟨cur, hcur, .head hnext hruns⟩

/-- Outside verbose mode, all other fillers begin with a literal. -/
theorem exists_readsLiteral (hmodes : s.frame.modes = .none) (hfillers : ∀ f ∈ fillers, Filler f)
    (hother : ¬ ∀ f ∈ fillers, PassedOver f) (hrest : s.cur.rest = fillers.flatten ++ tail) :
    ∃ t, s.RunsTo t ∧ ReadsLiteral s t := by
  induction fillers generalizing s with
  | nil => exact absurd nofun hother
  | cons filler fillers ih =>
    obtain ⟨hfirst, hothers⟩ := List.forall_mem_cons.mp hfillers
    rw [List.flatten_cons, List.append_assoc] at hrest
    have hliteral : ∀ {d : Char} {more : Text}, filler = d :: more → d ∉ Literal.special →
        ∃ t, s.RunsTo t ∧ ReadsLiteral s t := by
      intro d more hfiller hd
      rw [hfiller, List.cons_append] at hrest
      exact ⟨_, .single (next_literal hmodes hrest hd), d.toNat, _, mem_explicit_readOne s d, rfl,
        Nat.le_refl _⟩
    cases hfirst with
    | passedOver hpassed =>
      -- the literal comes behind the first filler
      have hnext := next_passedOver hmodes hpassed hrest
      have hbehind : (s.cur.advance filler.length).rest = fillers.flatten ++ tail := by
        rw [Cursor.advance_rest, hrest, List.drop_left]
      have hlater : ¬ ∀ f ∈ fillers, PassedOver f := fun hall =>
        hother (List.forall_mem_cons.mpr ⟨hpassed, hall⟩)
      obtain ⟨t, hruns, d, n, hn, hlabel, hle⟩ :=
        ih (s := s.moveTo (s.cur.advance filler.length)) hmodes hothers hlater hbehind
      have hpos : s.cur.pos ≤ s.cur.pos + filler.length := Nat.le_add_right _ _
      exact ⟨t, .head hnext hruns, d, n, hn, hlabel, Nat.le_trans hpos hle⟩
    | blank hc => exact hliteral rfl (not_special_of_isSpace hc)
    | lineComment => exact hliteral rfl (by decide)

end ParserState

/-! ## Section 3: The remainder of a code -/

/-- What the digits of a code look like: plain or in braces. -/
inductive CodeDigits : Text → Prop where
  | none : CodeDigits []
  | plain {d : Char} {digits : Text} (hd : Escape.isHex d = true) : CodeDigits (d :: digits)
  | braced {digits : Text} (hdigits : ∀ d ∈ digits, Escape.isHex d = true) :
      CodeDigits ('\x7b' :: (digits ++ ['\x7d']))

namespace Escape

variable {start : Nat} {cur after : Cursor}

theorem codeDigits_of_readHex {letter : Char} {width : Nat} {code : CodePoint}
    (h : readHex start letter width cur = .ok (code, after)) (hend : after.rest = []) :
    CodeDigits cur.rest := by
  obtain ⟨digits, hdigits, -, hhex, -, -⟩ := readHex_eq_ok_iff.mp h
  rcases hexDigits?_eq_some_iff.mp hdigits with ⟨⟨-, hhead⟩, hfound⟩ | ⟨-, -, rfl, rfl⟩
  · obtain ⟨rest, hrest⟩ := List.head?_eq_some_iff.mp hhead
    obtain ⟨-, ⟨tail, htail⟩, rfl⟩ := Cursor.upTo?_eq_some_iff.mp hfound
    have hinside : rest = digits ++ '\x7d' :: tail := by
      rw [← htail, Cursor.advance_rest, hrest]
      rfl
    have hnone : tail = [] := by
      rw [Cursor.advance_rest, htail] at hend
      simpa using hend
    rw [hrest, hinside, hnone]
    exact .braced hhex
  · have hwhole : cur.rest.take width = cur.rest :=
      List.take_of_length_le (List.drop_eq_nil_iff.mp hend)
    rw [hwhole] at hhex
    cases hrest : cur.rest with
    | nil => exact .none
    | cons d digits => exact .plain (hhex d (hrest ▸ List.mem_cons_self))

theorem codeDigits_of_readOctal {first : Char} {code : CodePoint}
    (h : readOctal start first cur = .ok (code, after)) (hend : after.rest = []) :
    CodeDigits cur.rest := by
  obtain ⟨code', -, hpair⟩ := Read.bind_eq_ok.mp h
  obtain ⟨rfl, rfl⟩ := Prod.mk.inj (Except.ok.inj hpair)
  cases hrest : cur.rest with
  | nil => exact .none
  | cons d digits =>
    -- the text ends behind the octal digits, so the next character is one
    have hoctal : isOctal d = true := by
      by_contra hno
      rw [Cursor.advance_rest, hrest] at hend
      simp [hno] at hend
    refine .plain ?_
    unfold isHex hexValue?
    simp only [isOctal, Bool.and_eq_true, decide_eq_true_eq] at hoctal
    have hdigit : ('0' ≤ d && d ≤ '9') = true := by
      simp only [Bool.and_eq_true, decide_eq_true_eq]
      exact ⟨hoctal.1, le_trans hoctal.2 (by decide)⟩
    simp [hdigit]

end Escape

theorem Remainder.codeDigits {text tail : Text} {item : Node} (h : Remainder text item tail)
    (hquote : tail ≠ ['\\', 'E']) : CodeDigits tail := by
  cases h with
  | nothing => exact .none
  | quoteEnd => exact absurd rfl hquote
  | @code c _ hc _ hread =>
    obtain ⟨modes, hread⟩ := hread
    have hread := hread 0 0
    rcases hc with hwidth | rfl
    · -- the letters of a hexadecimal code
      unfold Escape.hexWidth? at hwidth
      split at hwidth
      case h_4 => simp at hwidth
      all_goals
        obtain ⟨⟨code, stop⟩, hcode, hpair⟩ := Read.bind_eq_ok.mp hread
        obtain ⟨-, rfl⟩ := Prod.mk.inj (Except.ok.inj hpair)
        exact Escape.codeDigits_of_readHex hcode rfl
    · obtain ⟨⟨code, stop⟩, hcode, hpair⟩ := Read.bind_eq_ok.mp hread
      obtain ⟨-, rfl⟩ := Prod.mk.inj (Except.ok.inj hpair)
      exact Escape.codeDigits_of_readOctal hcode rfl

theorem not_special_of_isHex {d : Char} (h : Escape.isHex d = true) : d ∉ Literal.special := by
  intro hmem
  have hnone : (Literal.special.all fun d => !Escape.isHex d) = true := by decide +kernel
  have hd := List.all_eq_true.mp hnone d hmem
  rw [h] at hd
  exact Bool.noConfusion hd

/-! ## Section 4: Reading the text behind a character -/

/-- A quantifier is read the same wherever its text is all that is left. -/
theorem IsQuantifierText.read {form : Text} {bounds : Bounds} {mode : QuantifierMode}
    (h : IsQuantifierText form bounds mode) {cur : Cursor} (hrest : cur.rest = form) :
    ∃ after stop, Bounds.read? cur = .ok (some (bounds, after)) ∧
      QuantifierMode.read after = (mode, stop) ∧ stop.rest = [] := by
  obtain ⟨after, hbounds, hmode⟩ := h
  obtain ⟨n, -, hn, rfl, hcut⟩ := Bounds.read?_cut hbounds
  obtain ⟨m, hm, hstop, hcut'⟩ := QuantifierMode.read_cut hmode
  have hlength : form.length = n + m := by
    have hpos := congrArg Cursor.pos hstop
    have hzero : (Cursor.ofText form).pos = 0 := rfl
    simp only [Cursor.advance_pos, hzero] at hpos
    omega
  have hform : (Cursor.ofText form).Cut cur (n + m) := by
    refine ⟨?_, ?_⟩
    · rw [hrest]
      exact List.prefix_refl _
    · rw [hrest, hlength]
  refine ⟨_, _, hcut cur (hform.mono (Nat.le_add_right n m)).agrees,
    hcut' _ hform.advance.agrees, ?_⟩
  rw [Cursor.advance_advance, Cursor.advance_rest, hrest, ← hlength, List.drop_length]

/-- A form with equal bounds is written in braces. -/
theorem IsQuantifierText.exists_brace {form : Text} {k : Nat} {mode : QuantifierMode}
    (h : IsQuantifierText form ⟨k, some k⟩ mode) : ∃ rest, form = '\x7b' :: rest := by
  obtain ⟨after, hbounds, -⟩ := h
  unfold Bounds.read? at hbounds
  split at hbounds
  next => simp at hbounds
  next => simp at hbounds
  next =>
    obtain ⟨⟨hmin, hmax⟩, -⟩ : (0 = k ∧ 1 = k) ∧ _ := by simpa using (Except.ok.inj hbounds)
    omega
  next =>
    unfold Bounds.readBraces at hbounds
    split at hbounds
    next => simp at hbounds
    next hwritten =>
      obtain ⟨form', tail, hspells, hrest, -⟩ := Bounds.exists_spells hwritten
      obtain ⟨rest, rfl⟩ := hspells.exists_cons
      exact ⟨rest ++ tail, hrest⟩

/-- Two texts that go on with different marks are apart before these. -/
theorem eq_of_marks {a b more tail : Text} {x y : Char} {marks : List Char}
    (heq : a ++ x :: more = b ++ y :: tail) (hx : x ∈ marks) (hy : y ∈ marks)
    (ha : ∀ d ∈ a, d ∉ marks) (hb : ∀ d ∈ b, d ∉ marks) : a = b ∧ x = y ∧ more = tail := by
  have hbefore : ∀ {found rest : Text} {z : Char}, z ∈ marks → (∀ d ∈ found, d ∉ marks) →
      (found ++ z :: rest).takeWhile (fun d => decide (d ∉ marks)) = found := by
    intro found rest z hz hfound
    refine Cursor.takeWhile_of_append (fun d hd => decide_eq_true (hfound d hd)) fun d hd => ?_
    obtain rfl := Option.some.inj hd
    simp [hz]
  have hfirst := @hbefore a more x hx ha
  rw [heq, hbefore hy hb] at hfirst
  subst hfirst
  obtain ⟨rfl, rfl⟩ := List.cons.inj (List.append_cancel_left heq)
  exact ⟨rfl, rfl, rfl⟩

/-- Digits in braces are equal bounds, if they are bounds at all. -/
theorem read?_braced {digits tail : Text} {cur : Cursor}
    (hdigits : ∀ d ∈ digits, Escape.isHex d = true)
    (hrest : cur.rest = '\x7b' :: (digits ++ '\x7d' :: tail)) :
    (∃ e, Bounds.read? cur = .error e) ∨ Bounds.read? cur = .ok none ∨
      ∃ k after, Bounds.read? cur = .ok (some (⟨k, some k⟩, after)) ∧ after.rest = tail := by
  have hbraces : Bounds.read? cur = Bounds.readBraces cur := by
    simp only [Bounds.read?, hrest]
    rfl
  rw [hbraces, Bounds.readBraces]
  cases hwritten : Bounds.written? cur with
  | none => exact .inr (.inl rfl)
  | some found =>
    obtain ⟨⟨low, comma, high⟩, after⟩ := found
    obtain ⟨form, tail', hspells, hform, rfl⟩ := Bounds.exists_spells hwritten
    -- neither the digits nor the lower bound have a mark in them
    have hfree : ∀ d ∈ digits, d ∉ ['\x7d', ','] := by
      intro d hd hmem
      have hhex := hdigits d hd
      simp only [List.mem_cons, List.not_mem_nil, or_false] at hmem
      rcases hmem with rfl | rfl <;> exact absurd hhex (by decide)
    have hdecimal : ∀ {text : Text}, (∀ d ∈ text, isDecimal d = true) →
        ∀ d ∈ text, d ∉ ['\x7d', ','] := by
      intro text htext d hd hmem
      have hdigit := htext d hd
      simp only [List.mem_cons, List.not_mem_nil, or_false] at hmem
      rcases hmem with rfl | rfl
      · exact absurd hdigit (by decide +kernel)
      · exact absurd hdigit (by decide +kernel)
    cases hspells with
    | single hlow hsome =>
      have hsame : digits ++ '\x7d' :: tail = low ++ '\x7d' :: tail' := by
        simpa [hrest] using hform
      obtain ⟨-, -, rfl⟩ := eq_of_marks hsame (by simp) (by simp) hfree (hdecimal hlow)
      simp only [Bounds.ofWritten, List.isEmpty_eq_false_iff.mpr hsome]
      cases hnumber : Read.number low with
      | error e => exact .inl ⟨e, rfl⟩
      | ok k =>
        refine .inr (.inr ⟨k, _, rfl, ?_⟩)
        rw [Cursor.advance_rest, hform, List.drop_left]
    | @range low high hlow _ _ =>
      have hsame : digits ++ '\x7d' :: tail = low ++ ',' :: (high ++ '\x7d' :: tail') := by
        simpa [hrest] using hform
      obtain ⟨-, hmark, -⟩ := eq_of_marks hsame (by simp) (by simp) hfree (hdecimal hlow)
      exact absurd hmark (by decide)

namespace ParserState

variable {s t : ParserState} {rest : Text}

/-- The end of a quote has no meaning outside one. -/
theorem step_quoteEnd (hmodes : t.frame.modes = .none) (hrest : t.cur.rest = '\\' :: 'E' :: rest) :
    ∃ e, t.step '\\' = .error e := by
  have hdrop : t.cur.rest.drop 1 = 'E' :: rest := by rw [hrest]; rfl
  rw [step_of_modes hmodes, readAt_escape hrest, readEscape]
  simp only [Escape.read, hdrop]
  exact ⟨_, rfl⟩

/-- What begins a quantifier neither opens, closes nor divides a group. -/
theorem exists_mark_of_read? {bounds : Bounds} {after : Cursor}
    (h : Bounds.read? t.cur = .ok (some (bounds, after))) :
    ∃ d rest, t.cur.rest = d :: rest ∧ d ∉ ['(', ')', '|'] := by
  cases hrest : t.cur.rest with
  | nil =>
    have hlt := (Bounds.passes_of_read? h).rest_lt
    rw [hrest] at hlt
    exact absurd hlt (Nat.not_lt_zero _)
  | cons d rest =>
    have hmark : d ∈ ['*', '+', '?', '\x7b'] := by
      by_contra hno
      rw [read?_eq_none hrest hno] at h
      simp at h
    simp only [List.mem_cons, List.not_mem_nil, or_false] at hmark
    refine ⟨d, rest, rfl, ?_⟩
    rcases hmark with rfl | rfl | rfl | rfl <;> decide

/-- A quantifier behind a quantifier is refused. -/
theorem step_repeated {bounds : Bounds} {after : Cursor} (hmodes : t.frame.modes = .none)
    (hquantified : t.frame.quantified = true) (hbounds : bounds.Ordered)
    (h : Bounds.read? t.cur = .ok (some (bounds, after))) :
    ∃ d rest e, t.cur.rest = d :: rest ∧ t.step d = .error e := by
  obtain ⟨d, rest, hrest, hd⟩ := exists_mark_of_read? h
  refine ⟨d, rest, .fault .multipleRepeat t.cur.pos, hrest, ?_⟩
  rw [step_of_modes hmodes, readAt_quantifier hd h, applyQuantifier_of_ordered hbounds, hquantified]
  rfl

/-- A quantifier at the cursor is put over the last item. -/
theorem next_putQuantifier {bounds : Bounds} {mode : QuantifierMode} {after stop : Cursor}
    {item : Node} {items : List Node} (hmodes : t.frame.modes = .none)
    (hfirst : t.frame.quantified = false) (hitems : t.frame.items = item :: items)
    (hitem : item.label.isRepeatable = true) (hbounds : bounds.Ordered)
    (h : Bounds.read? t.cur = .ok (some (bounds, after)))
    (hmode : QuantifierMode.read after = (mode, stop)) :
    Next t (t.putQuantifier bounds mode item items stop) := by
  obtain ⟨d, rest, hrest, hd⟩ := exists_mark_of_read? h
  refine next_of_readAt hmodes hrest ?_
  rw [readAt_quantifier hd h]
  exact applyQuantifier_eq_ok_iff.mpr
    ⟨hbounds, hfirst, item, items, mode, stop, hitems, hitem, hmode, rfl⟩

/-- What a run to the end comes through is in the tree. -/
theorem RunsTo.mem_explicit_of_parse {text : Text} {p : Pattern} {n : Node}
    (h : (initial text).RunsTo t) (hparse : Pattern.parse text = .ok p) (hn : n ∈ t.explicit) :
    n ∈ p.root.explicit := by
  obtain ⟨last, root, hlast, hend, hfinish, rfl⟩ := Pattern.parse_eq_ok_iff.mp hparse
  rw [(IsNormal.of_runsTo hlast).explicit_finish hfinish]
  exact (h.to_end hlast hend).explicit_subset hn

theorem RunsTo.step_ne_error {text : Text} {p : Pattern} {d : Char} {e : ReadError}
    (h : (initial text).RunsTo t) (hparse : Pattern.parse text = .ok p)
    (hrest : t.cur.rest = d :: rest) : t.step d ≠ .error e := by
  intro hstep
  rw [Pattern.parse_of_step_error h hrest hstep] at hparse
  simp at hparse

end ParserState

/-! ## Section 5: When the text is the quantifier -/

section Repetition

open ParserState

variable {c : Char} {shown form tail : Text} {fillers : List Text} {bounds : Bounds}
  {mode : QuantifierMode} {p : Pattern} {s t : ParserState}

/-- The state behind the character. -/
def ParserState.behindLiteral (c : Char) (shown : Text) : ParserState :=
  (initial (c :: shown)).readOne (Modes.none.literal c.toNat)

theorem runsTo_behindLiteral (hc : c ∉ Literal.special) :
    (initial (c :: shown)).RunsTo (behindLiteral c shown) :=
  .single (next_literal rfl rfl hc)

theorem Pattern.IsRepetition.explicit (h : p.IsRepetition c bounds mode) :
    ∃ leaf : Node, leaf.label = Modes.none.literal c.toNat ∧ p.root.explicit = [p.root, leaf] ∧
      p.root.label = .quantifier bounds mode := by
  obtain ⟨mark, mark', hroot⟩ := h
  refine ⟨.node (Modes.none.literal c.toNat) mark' [], rfl, ?_, by rw [hroot]; rfl⟩
  rw [hroot, Node.explicit, Node.preorder_node, List.flatMap_singleton, Node.preorder_node]
  rfl

/-- In a repetition of one character no other literal is read. -/
theorem not_readsLiteral (hc : c ∉ Literal.special) (hparse : Pattern.parse (c :: shown) = .ok p)
    (hp : p.IsRepetition c bounds mode) (hs : (initial (c :: shown)).RunsTo s)
    (hpos : 0 < s.cur.pos) (hst : s.RunsTo t) : ¬ ReadsLiteral s t := by
  rintro ⟨d, n, hn, hlabel, hstart⟩
  obtain ⟨leaf, -, hexplicit, hroot⟩ := hp.explicit
  have hfirst := (runsTo_behindLiteral hc).mem_explicit_of_parse hparse (mem_explicit_readOne _ c)
  have hlater := RunsTo.mem_explicit_of_parse (hs.trans hst) hparse hn
  -- both are the leaf, but they stand at different places
  have hleaf : ∀ {m : Node} {char : CodePoint}, m ∈ p.root.explicit →
      m.label = Modes.none.literal char → m = leaf := by
    intro m char hm hchar
    rw [hexplicit] at hm
    rcases List.mem_cons.mp hm with rfl | hm
    · rw [hroot] at hchar
      exact Label.noConfusion hchar
    · exact List.mem_singleton.mp hm
  rw [hleaf hlater hlabel, ← hleaf hfirst rfl] at hstart
  exact absurd hpos (Nat.not_lt.mpr hstart)

theorem isSeparate_fillers (hfillers : ∀ f ∈ fillers, Filler f) :
    IsSeparate fillers.flatten := by
  cases fillers with
  | nil => exact isSeparate_nil
  | cons filler rest =>
    rw [List.flatten_cons]
    -- a filler begins with a mark of its own or with whitespace
    have hfirst : IsSeparate filler := by
      cases hfillers filler List.mem_cons_self with
      | passedOver hpassed =>
        cases hpassed with
        | comment => exact isSeparate_cons (by decide) (by decide)
        | emptyQuote => exact isSeparate_cons (by decide) (by decide)
      | blank hspace =>
        have hspecial := not_special_of_isSpace hspace
        refine isSeparate_cons ?_ ?_ <;> rintro rfl <;> exact hspecial (by decide)
      | lineComment => exact isSeparate_cons (by decide) (by decide)
    cases filler with
    | nil =>
      cases hfillers [] List.mem_cons_self with
      | passedOver hpassed => nomatch hpassed
    | cons d more => exact hfirst

/-- In a repetition no second quantifier is read, whatever stands between
    the two. -/
theorem not_isRepetition_of_quantified (hc : c ∉ Literal.special)
    (hruns : (initial (c :: shown)).RunsTo t) (hmodes : t.frame.modes = .none)
    (hquantified : t.frame.quantified = true) (hpos : 0 < t.cur.pos)
    (hfillers : ∀ f ∈ fillers, Filler f) (hform : IsQuantifierText form bounds mode)
    (hbounds : bounds.Ordered) (hrest : t.cur.rest = fillers.flatten ++ form)
    (hparse : Pattern.parse (c :: shown) = .ok p) : ¬ p.IsRepetition c bounds mode := by
  intro hp
  by_cases hall : ∀ f ∈ fillers, PassedOver f
  · obtain ⟨cur, hcur, hpasses⟩ := runsTo_passedOver hmodes hall hrest
    obtain ⟨after, stop, hread, -, -⟩ := hform.read hcur
    obtain ⟨d, rest, e, hnext, hstep⟩ :=
      step_repeated (t := t.moveTo cur) hmodes hquantified hbounds hread
    exact RunsTo.step_ne_error (hruns.trans hpasses) hparse hnext hstep
  · obtain ⟨u, hu, hliteral⟩ := exists_readsLiteral hmodes hfillers hall hrest
    exact not_readsLiteral hc hparse hp hruns hpos hu hliteral

/-- Behind the digits of a code in braces, the text is not the quantifier. -/
theorem not_isRepetition_of_braced {digits : Text} (hc : c ∉ Literal.special)
    (hdigits : ∀ d ∈ digits, Escape.isHex d = true) (hfillers : ∀ f ∈ fillers, Filler f)
    (hform : IsQuantifierText form bounds mode)
    (hshown : shown = '\x7b' :: (digits ++ '\x7d' :: (fillers.flatten ++ form)))
    (hparse : Pattern.parse (c :: shown) = .ok p) : ¬ p.IsRepetition c bounds mode := by
  intro hp
  have hruns : (initial (c :: shown)).RunsTo (behindLiteral c shown) := runsTo_behindLiteral hc
  have hrest : (behindLiteral c shown).cur.rest =
      '\x7b' :: (digits ++ '\x7d' :: (fillers.flatten ++ form)) := hshown
  rcases read?_braced hdigits hrest with ⟨e, hread⟩ | hread | ⟨k, after, hread, hafter⟩
  · -- the bounds are out of range
    have hstep : (behindLiteral c shown).step '\x7b' = .error e := by
      rw [step_of_modes rfl]
      simp only [readAt, hread]
      rfl
    exact hruns.step_ne_error hparse hrest hstep
  · -- the brace is a literal
    have hnext : Next (behindLiteral c shown)
        ((behindLiteral c shown).readOne (Modes.none.literal '\x7b'.toNat)) :=
      next_of_readAt rfl hrest (readAt_single_none rfl (by decide) hread)
    exact not_readsLiteral hc hparse hp hruns Nat.one_pos (.single hnext)
      ⟨_, _, mem_explicit_readOne _ _, rfl, Nat.le_refl _⟩
  · -- the digits are bounds, and the quantifier behind them is one too many
    cases hmode : QuantifierMode.read after with
    | mk found stop =>
      have hordered : (⟨k, some k⟩ : Bounds).Ordered := fun high hhigh =>
        (Option.some.inj hhigh).le
      have hnext := next_putQuantifier (t := behindLiteral c shown) rfl rfl rfl rfl hordered hread
        hmode
      obtain ⟨leaf, hleaf, hexplicit, hroot⟩ := hp.explicit
      have hmem := RunsTo.mem_explicit_of_parse (hruns.tail hnext) hparse
        ((mem_explicit_putQuantifier rfl).mpr (.inr rfl))
      rw [hexplicit] at hmem
      rcases List.mem_cons.mp hmem with hsame | hmem
      · rw [← hsame, Node.label_build] at hroot
        obtain ⟨rfl, rfl⟩ : ⟨k, some k⟩ = bounds ∧ found = mode := by simpa using hroot
        obtain ⟨more, rfl⟩ := hform.exists_brace
        have hseparate : IsSeparate after.rest := by
          rw [hafter]
          exact isSeparate_append (isSeparate_fillers hfillers)
            (isSeparate_cons (by decide) (by decide))
        obtain ⟨stop', hstop', hgreedy⟩ :=
          @QuantifierMode.read_of_suffix .greedy after _ rfl hseparate
        obtain ⟨rfl, rfl⟩ := Prod.mk.inj (hgreedy.symm.trans hmode)
        have hpos := hnext.move.passes.2
        exact not_isRepetition_of_quantified hc (hruns.tail hnext) rfl rfl
          (Nat.zero_lt_of_lt hpos) hfillers hform hordered (hstop'.trans hafter) hparse hp
      · -- the leaf is no quantifier
        rw [← List.mem_singleton.mp hmem] at hleaf
        exact Label.noConfusion hleaf

/-- A text that shows the quantifier has nothing of the operand in it, and
    nothing that only verbose mode passes over. -/
theorem passedOver_of_isRepetition {text : Text} {operand : Node} (hc : c ∉ Literal.special)
    (hgap : IsGap text operand tail fillers) (hform : IsQuantifierText form bounds mode)
    (hshown : shown = tail ++ fillers.flatten ++ form)
    (hparse : Pattern.parse (c :: shown) = .ok p) (hp : p.IsRepetition c bounds mode) :
    tail = [] ∧ ∀ f ∈ fillers, PassedOver f := by
  have hruns : (initial (c :: shown)).RunsTo (behindLiteral c shown) := runsTo_behindLiteral hc
  have hrest : (behindLiteral c shown).cur.rest = tail ++ fillers.flatten ++ form := hshown
  -- whatever remains of the operand would be read behind the character
  by_cases hquote : tail = ['\\', 'E']
  · have hescape : (behindLiteral c shown).cur.rest = '\\' :: 'E' :: (fillers.flatten ++ form) := by
      rw [hrest, hquote]
      rfl
    obtain ⟨e, hstep⟩ := step_quoteEnd rfl hescape
    exact absurd hstep (hruns.step_ne_error hparse hescape)
  · cases hgap.remainder.codeDigits hquote with
    | none =>
      refine ⟨rfl, ?_⟩
      by_contra hother
      obtain ⟨t, ht, hliteral⟩ :=
        exists_readsLiteral (s := behindLiteral c shown) rfl hgap.fillers hother hrest
      exact not_readsLiteral hc hparse hp hruns Nat.one_pos ht hliteral
    | @plain d digits hd =>
      have hnext := next_literal (s := behindLiteral c shown) rfl hrest (not_special_of_isHex hd)
      exact absurd ⟨_, _, mem_explicit_readOne _ _, rfl, Nat.le_refl _⟩
        (not_readsLiteral hc hparse hp hruns Nat.one_pos (.single hnext))
    | @braced digits hdigits =>
      have hbrace : shown = '\x7b' :: (digits ++ '\x7d' :: (fillers.flatten ++ form)) := by
        simp [hshown]
      exact absurd hp
        (not_isRepetition_of_braced hc hdigits hgap.fillers hform hbrace hparse)

/-- Behind a character and what is passed over in any mode, the text of a
    quantifier is read as it. -/
theorem repeatsAfter_of_passedOver (hc : c ∉ Literal.special)
    (hfillers : ∀ f ∈ fillers, PassedOver f) (hform : IsQuantifierText form bounds mode)
    (hbounds : bounds.Ordered) (hshown : shown = fillers.flatten ++ form) :
    RepeatsAfter c shown bounds mode := by
  have hruns : (initial (c :: shown)).RunsTo (behindLiteral c shown) := runsTo_behindLiteral hc
  have hrest : (behindLiteral c shown).cur.rest = fillers.flatten ++ form := hshown
  obtain ⟨cur, hcur, hpasses⟩ := runsTo_passedOver (s := behindLiteral c shown) rfl hfillers hrest
  obtain ⟨after, stop, hread, hmode, hend⟩ := hform.read hcur
  have hnext := next_putQuantifier (t := (behindLiteral c shown).moveTo cur) rfl rfl rfl rfl hbounds
    hread hmode
  -- the last state closes to the quantifier over the character
  have hfinish : (((behindLiteral c shown).moveTo cur).putQuantifier bounds mode
      (.build 0 (Modes.none.literal c.toNat) 0 1 []) [] stop).finish =
        .ok (.build 1 (.quantifier bounds mode) 0 stop.pos
          [.build 0 (Modes.none.literal c.toNat) 0 1 []]) := rfl
  exact ⟨_, Pattern.parse_eq_ok_iff.mpr
    ⟨_, _, (hruns.trans hpasses).tail hnext, hend, hfinish, rfl⟩, _, _, rfl⟩

end Repetition

namespace Pattern

variable {text : Text} {p : Pattern} {n : Node} {bounds : Bounds} {mode : QuantifierMode}

/-- What an explanation shows for a quantifier. -/
structure ShowsQuantifier (p : Pattern) (n : Node) (bounds : Bounds) (mode : QuantifierMode) :
    Prop where
  /-- The quantifier is explained by one part, which stores its text. -/
  stored : ∃ part, explainNode p n = [part] ∧ part.quantifier = some (p.quantifierText n)
  /-- The text is the remainder of the operand, what was passed over and the
      form of the quantifier, and it repeats a character if the operand has
      no remainder and everything is passed over in any mode. -/
  exact : ∃ operand tail fillers form, n.children = [operand] ∧ IsGap p.text operand tail fillers ∧
    IsQuantifierText form bounds mode ∧ p.quantifierText n = tail ++ fillers.flatten ++ form ∧
    ∀ c ∉ Literal.special, RepeatsAfter c (p.quantifierText n) bounds mode ↔
      tail = [] ∧ ∀ filler ∈ fillers, PassedOver filler

/-- The text that is shown for a quantifier is the quantifier that was read
    exactly when it has no piece of the operand in it and nothing that only
    verbose mode passes over. -/
theorem quantifierText_exact (h : parse text = .ok p) (hn : n ∈ p.root.preorder)
    (hlabel : n.label = .quantifier bounds mode) : p.ShowsQuantifier n bounds mode where
  stored := by
    obtain ⟨part, hpart, hstored⟩ :=
      partsOf_quantifier (p := p) hlabel (explainNodes p n.children)
    cases n with
    | node label mark children => exact ⟨part, hpart, hstored⟩
  exact := by
    have htext : p.text = text := by
      obtain ⟨last, root, -, -, -, rfl⟩ := parse_eq_ok_iff.mp h
      rfl
    -- normal form keeps the bounds in order
    have hbounds : bounds.Ordered := by
      have hsuits := (isNormal_of_parse h n hn).1
      rw [hlabel] at hsuits
      generalize n.children.map Node.label = labels at hsuits
      cases hsuits with
      | quantifier hbounds => exact hbounds
      | leaf hleaf => cases hleaf with | plain hplain => nomatch hplain
    obtain ⟨operand, tail, fillers, form, hchildren, hgap, hslice, hform⟩ :=
      standsBehindOperand_of_parse h hn bounds mode hlabel
    have hshown : p.quantifierText n = tail ++ fillers.flatten ++ form := by
      rw [quantifierText, hchildren, htext]
      exact hslice
    refine ⟨operand, tail, fillers, form, hchildren, htext ▸ hgap, hform, hshown, fun c hc => ?_⟩
    constructor
    · intro hrepeats
      obtain ⟨q, hparse, hq⟩ := hrepeats
      exact passedOver_of_isRepetition hc hgap hform hshown hparse hq
    · intro hall
      obtain ⟨rfl, hpassed⟩ := hall
      exact repeatsAfter_of_passedOver hc hpassed hform hbounds hshown

theorem exists_quantifier_of_check {text shown : Text} {bounds : Bounds} {mode : QuantifierMode}
    (h : (parse text).toOption.any (fun p => p.root.preorder.any fun n =>
      n.label == .quantifier bounds mode && p.quantifierText n == shown) = true) :
    ∃ p n, parse text = .ok p ∧ n ∈ p.root.preorder ∧ n.label = .quantifier bounds mode ∧
      p.quantifierText n = shown := by
  obtain ⟨p, hp, hcheck⟩ := exists_of_check h
  obtain ⟨n, hn, hcheck⟩ := List.any_eq_true.mp hcheck
  simp only [Bool.and_eq_true, beq_iff_eq] at hcheck
  exact ⟨p, n, hp, hn, hcheck.1, hcheck.2⟩

/-- A comment between an operand and its quantifier is shown with the
    quantifier. -/
theorem quantifierText_exact_of_comment :
    ∃ p n, parse "ab(?#c)+?".toList = .ok p ∧ n ∈ p.root.preorder ∧
      n.label = .quantifier ⟨1, none⟩ .lazy ∧ p.quantifierText n = "(?#c)+?".toList ∧
      p.ShowsQuantifier n ⟨1, none⟩ .lazy := by
  have hcheck : (parse "ab(?#c)+?".toList).toOption.any (fun p => p.root.preorder.any fun n =>
      n.label == .quantifier ⟨1, none⟩ .lazy && p.quantifierText n == "(?#c)+?".toList) = true := by
    decide +kernel
  obtain ⟨p, n, hp, hn, hlabel, htext⟩ := exists_quantifier_of_check hcheck
  exact ⟨p, n, hp, hn, hlabel, htext, quantifierText_exact hp hn hlabel⟩

/-- Behind a character code its digits are shown with the quantifier, and
    what is shown repeats no character. -/
theorem not_repeatsAfter_of_code :
    ∃ p n, parse "\\x41+".toList = .ok p ∧ n ∈ p.root.preorder ∧
      n.label = .quantifier ⟨1, none⟩ .greedy ∧ p.quantifierText n = "41+".toList ∧
      ¬ RepeatsAfter 'a' (p.quantifierText n) ⟨1, none⟩ .greedy := by
  have hcheck : (parse "\\x41+".toList).toOption.any (fun p => p.root.preorder.any fun n =>
      n.label == .quantifier ⟨1, none⟩ .greedy && p.quantifierText n == "41+".toList) = true := by
    decide +kernel
  obtain ⟨p, n, hp, hn, hlabel, htext⟩ := exists_quantifier_of_check hcheck
  refine ⟨p, n, hp, hn, hlabel, htext, ?_⟩
  intro hrepeats
  obtain ⟨q, hq, mark, mark', hroot⟩ := hrepeats
  rw [htext] at hq
  -- three literals in a row are read
  have hconcat : (parse "a41+".toList).toOption.any (fun q => q.root.label == .concat) = true := by
    decide +kernel
  obtain ⟨q', hq', hlabel'⟩ := exists_of_check hconcat
  obtain rfl := Except.ok.inj (hq.symm.trans hq')
  rw [hroot] at hlabel'
  exact Bool.noConfusion hlabel'

end Pattern

end RegexInsight
