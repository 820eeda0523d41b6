import Mathlib
import RegexInsight.Proofs.Pattern.Reading
import RegexInsight.Proofs.Pattern.Reference

/-! # Relative references

    A signed number counts groups from the place where it is written: `-1`
    is the group opened last, `+1` the one that opens next.  In each of its
    forms it is made absolute when it is read, from the number of groups
    opened up to there, and the result is looked up at the end like any
    other number. -/

namespace RegexInsight

/-! ## Section 1: Offsets -/

/-- A relative reference as it is written: a sign and its digits. -/
def offsetText (backward : Bool) (digits : Text) : Text :=
  signChar backward :: digits

theorem groupAt_backward {groups offset : Nat} (h : 1 ≤ offset) :
    groupAt groups true offset = groups + 1 - offset := by
  simp [groupAt, Nat.pos_of_ne_zero (Nat.one_le_iff_ne_zero.mp h)]

/-- Neither a sign nor a digit ends a relative reference. -/
theorem not_mem_offsetText {backward : Bool} {digits : Text} {terminator : Char}
    (hall : digits.all isDecimal = true) (hdecimal : isDecimal terminator = false)
    (hsign : terminator ∉ ['+', '-']) : terminator ∉ offsetText backward digits := by
  rw [offsetText, List.mem_cons, not_or]
  constructor
  · rintro rfl
    cases backward <;> simp [signChar] at hsign
  · intro hmem
    rw [List.all_eq_true.mp hall terminator hmem] at hdecimal
    exact Bool.noConfusion hdecimal

namespace Escape

variable {start groups : Nat} {cur : Cursor} {backward : Bool} {digits : Text}

theorem signedDigits?_offsetText (hsome : digits ≠ []) (hall : digits.all isDecimal = true) :
    signedDigits? (offsetText backward digits) = some (backward, digits) :=
  signedDigits?_eq_some_iff.mpr ⟨rfl, hsome, hall⟩

/-- A relative reference is made absolute if there is a group at its
    offset. -/
theorem groupAt_of_absoluteReference {reference : Text} (hsome : digits ≠ [])
    (hall : digits.all isDecimal = true)
    (h : absoluteReference start groups (offsetText backward digits) = .ok reference) :
    1 ≤ groupAt groups backward (Numeral.value digits) ∧
      reference = Nat.toDigits 10 (groupAt groups backward (Numeral.value digits)) := by
  simp only [absoluteReference, signedDigits?_offsetText hsome hall] at h
  obtain ⟨offset, hoffset, hgroup⟩ := Read.bind_eq_ok.mp h
  obtain ⟨-, -, -, rfl⟩ := Numeral.read_eq_ok_iff.mp (Read.number_eq_ok_iff.mp hoffset)
  obtain ⟨hnonzero, hwrite⟩ := Read.guard_eq_ok.mp hgroup
  refine ⟨Nat.one_le_iff_ne_zero.mpr fun hzero => hnonzero (beq_iff_eq.mpr hzero), ?_⟩
  unfold Read.numeralOf at hwrite
  split at hwrite
  next htext =>
    obtain rfl := Except.ok.inj hwrite
    exact (Numeral.write_eq_ok_iff.mp htext).1
  next => simp at hwrite

/-- An offset that can be read and leads back past the first group is a
    fault. -/
theorem absoluteReference_of_lt (hsome : digits ≠ []) (hall : digits.all isDecimal = true)
    (hlength : digits.length ≤ Numeral.maxDigits) (hlt : groups < Numeral.value digits) :
    absoluteReference start groups (offsetText true digits) =
      .fail (.referenceBeforeFirst (offsetText true digits)) start := by
  have hread : Read.number digits = .ok (Numeral.value digits) :=
    Read.number_eq_ok_iff.mpr (Numeral.read_eq_ok_iff.mpr ⟨hsome, hall, hlength, rfl⟩)
  have hgroup : groupAt groups true (Numeral.value digits) = 0 := by
    rw [groupAt_backward (Nat.one_le_of_lt hlt)]
    omega
  simp only [absoluteReference, signedDigits?_offsetText hsome hall, hread]
  exact if_pos (beq_iff_eq.mpr hgroup)

/-! ## Section 2: Forms -/

/-- The labels of a relative reference: a backreference has the absolute
    number, a call the text as it is written. -/
def IsOffsetLabel (written : Text) (label : Text → Label) : Prop :=
  label = .backreference ∨ label = fun _ => .recursion written

/-- What `read` gives for a relative reference in one of its forms. -/
def readOffset (start groups : Nat) (written : Text) (label : Text → Label) (after : Cursor) :
    Read (Reading × Cursor) := do
  let reference ← absoluteReference start groups written
  return (⟨[⟨label reference, start, after.pos⟩], some reference⟩, after)

theorem call_offset (start groups : Nat) {opening terminator : Char} {rest : Text}
    (hdecimal : isDecimal terminator = false) (hsign : terminator ∉ ['+', '-'])
    (hall : digits.all isDecimal = true)
    (hrest : cur.rest = opening :: (offsetText backward digits ++ terminator :: rest)) :
    ∃ after, readGeneral.call start groups cur terminator =
      readOffset start groups (offsetText backward digits)
        (fun _ => .recursion (offsetText backward digits)) after := by
  have hnext : (cur.advance 1).rest = offsetText backward digits ++ terminator :: rest := by
    rw [Cursor.advance_rest, hrest]
    rfl
  obtain ⟨after, -, hfound⟩ :=
    Cursor.upTo?_of_append hnext (not_mem_offsetText hall hdecimal hsign)
  have hwhole : (offsetText backward digits == ['0']) = false := by
    cases backward <;> simp [offsetText, signChar]
  refine ⟨after, ?_⟩
  simp only [readGeneral.call, hfound, hwhole]
  rfl

/-- Every form behind `\\g` makes the reference absolute. -/
theorem readGeneral_offset (start groups : Nat) (hsome : digits ≠ [])
    (hall : digits.all isDecimal = true) (h : GeneralOffset backward digits cur.rest) :
    ∃ label after, IsOffsetLabel (offsetText backward digits) label ∧
      readGeneral start groups cur =
        readOffset start groups (offsetText backward digits) label after := by
  generalize hrest : cur.rest = text at h
  -- each way to write the reference has a terminator of its own, the last one has none
  cases h with
  | angle =>
    have hdecimal : isDecimal '>' = false := by decide
    obtain ⟨after, hcall⟩ := call_offset start groups hdecimal (by decide) hall hrest
    refine ⟨_, after, .inr rfl, ?_⟩
    simp only [readGeneral, hrest, hcall]
  | quote =>
    have hdecimal : isDecimal '\'' = false := by decide
    obtain ⟨after, hcall⟩ := call_offset start groups hdecimal (by decide) hall hrest
    refine ⟨_, after, .inr rfl, ?_⟩
    simp only [readGeneral, hrest, hcall]
  | @brace _ _ rest =>
    have hnext : (cur.advance 1).rest = offsetText backward digits ++ '\x7d' :: rest := by
      rw [Cursor.advance_rest, hrest]
      rfl
    obtain ⟨after, -, hfound⟩ :=
      Cursor.upTo?_of_append hnext (not_mem_offsetText hall (by decide) (by decide))
    refine ⟨_, after, .inl rfl, ?_⟩
    simp only [readGeneral, hrest, hfound]
    rfl
  | @bare _ rest hstop =>
    have hnext : (cur.advance 1).rest = digits ++ rest := by
      rw [Cursor.advance_rest, hrest]
      rfl
    have hrun := Cursor.run_of_append hnext (List.all_eq_true.mp hall) hstop
    have hbare : readGeneral start groups cur = backreference start groups ('-' :: digits)
        ((cur.advance 1).advance digits.length) := by
      simp [readGeneral, hrest, hrun, hsome]
    exact ⟨_, _, .inl rfl, hbare⟩

end Escape

/-! ## Section 3: One step -/

namespace ParserState

variable {s : ParserState} {backward : Bool} {digits : Text}

/-- The state after a reference to `target` that is written up to `cur`. -/
def afterReference (s : ParserState) (label : Text → Label) (target : Text) (cur : Cursor) :
    ParserState :=
  ((s.refer target s.cur.pos).addLeaf ⟨label target, s.cur.pos, cur.pos⟩).moveTo cur

/-- A group head that begins with a signed number is read as a call. -/
theorem readExtension_offset {start : Nat} {cur : Cursor} {rest : Text} (hsome : digits ≠ [])
    (hall : digits.all isDecimal = true)
    (hrest : cur.rest = offsetText backward digits ++ ')' :: rest) :
    s.readExtension start cur = s.readRecursion start cur := by
  obtain ⟨d, ds, rfl⟩ := List.exists_cons_of_ne_nil hsome
  have hdigit : isDigitChar d = true :=
    isDigitChar_of_isDecimal (List.all_eq_true.mp hall d List.mem_cons_self)
  cases backward with
  | true =>
    have hminus : cur.rest = '-' :: d :: (ds ++ ')' :: rest) := hrest
    simp [readExtension, hminus, hdigit]
  | false =>
    have hplus : cur.rest = '+' :: d :: (ds ++ ')' :: rest) := hrest
    simp [readExtension, hplus, hdigit]

/-- A step over a relative reference remembers it in absolute form, if it
    has one. -/
theorem step_offset (hsome : digits ≠ []) (hall : digits.all isDecimal = true)
    (h : ShowsOffset backward digits s.cur.rest) :
    ∃ c tail label cur, s.cur.rest = c :: tail ∧
      Escape.IsOffsetLabel (offsetText backward digits) label ∧
      s.step c = (do
        let reference ← Escape.absoluteReference s.cur.pos s.groups (offsetText backward digits)
        return s.afterReference label reference cur) := by
  generalize hrest : s.cur.rest = text at h
  cases h with
  | @escape rest hoffset =>
    have hnext : (s.cur.advance 2).rest = rest := by
      rw [Cursor.advance_rest, hrest]
      rfl
    rw [← hnext] at hoffset
    obtain ⟨label, after, hlabel, hgeneral⟩ :=
      Escape.readGeneral_offset s.cur.pos s.groups hsome hall hoffset
    refine ⟨_, _, label, after, rfl, hlabel, ?_⟩
    rw [step_of_not_skipped (skipped?_eq_none hrest (by decide) (by decide)), readAt_escape hrest,
      readEscape, Escape.read_eq_readGeneral hrest, hgeneral, Escape.readOffset, bind_assoc]
    rfl
  | @group rest =>
    have hnext : (s.cur.advance 2).rest = offsetText backward digits ++ ')' :: rest := by
      rw [Cursor.advance_rest, hrest]
      rfl
    obtain ⟨after, -, hfound⟩ :=
      Cursor.upTo?_of_append hnext (not_mem_offsetText hall (by decide) (by decide))
    refine ⟨_, _, _, after, rfl, .inr rfl, ?_⟩
    rw [step_of_not_skipped (skipped?_eq_none hrest (by decide) (by decide)),
      readAt_extension hrest, readExtension_offset hsome hall hnext]
    -- a sign and digits are no reference to the whole pattern
    have hwhole : (offsetText backward digits == ['R']) = false := by
      cases backward <;> simp [offsetText, signChar]
    simp only [readRecursion, hfound, hwhole,
      isRecursionTarget_of_signed (Escape.signedDigits?_offsetText hsome hall)]
    rfl

/-! ## Section 4: Parsing -/

variable {s' : ParserState} {text : Text} {p : Pattern}

/-- What was read stays. -/
theorem RunsTo.explicit_subset (h : s.RunsTo s') : s.explicit ⊆ s'.explicit := by
  induction h with
  | refl => exact List.Subset.refl _
  | tail _ hnext ih =>
    obtain ⟨new, hnew, -⟩ := hnext.move.exists_explicit
    exact fun n hn => (hnew n).mpr (.inl (ih hn))

theorem RunsTo.references_subset (h : s.RunsTo s') : s.references ⊆ s'.references := by
  induction h with
  | refl => exact List.Subset.refl _
  | tail _ hnext ih => exact fun r hr => hnext.move.references_subset (ih hr)

/-- The relative reference at the cursor of `s` stands for the group `g` of
    a pattern: it is remembered by that number, and its node is in the
    tree. -/
structure StandsFor (s : ParserState) (p : Pattern) (written : Text) (g : Nat) : Prop where
  lower : 1 ≤ g
  upper : g ≤ p.groupCount
  read : ∃ label cur, Escape.IsOffsetLabel written label ∧
    Next s (s.afterReference label (Nat.toDigits 10 g) cur) ∧
    ∃ n ∈ p.root.preorder, n.start = s.cur.pos ∧ n.stop = cur.pos ∧
      n.label = label (Nat.toDigits 10 g)

/-- In a text that is parsed, every relative reference stands for the group
    at its offset. -/
theorem standsFor_of_parse (hparse : Pattern.parse text = .ok p)
    (hruns : (initial text).RunsTo s) (hsome : digits ≠ []) (hall : digits.all isDecimal = true)
    (hshows : ShowsOffset backward digits s.cur.rest) :
    s.StandsFor p (offsetText backward digits)
      (groupAt s.groups backward (Numeral.value digits)) := by
  obtain ⟨last, root, hlast, hend, hfinish, rfl⟩ := Pattern.parse_eq_ok_iff.mp hparse
  obtain ⟨c, tail, label, cur, hrest, hlabel, hstep⟩ := step_offset hsome hall hshows
  -- the run goes on over the reference
  rcases (hruns.to_end hlast hend).cases_head with rfl | ⟨s', ⟨c', tail', hrest', hnext⟩, hafter⟩
  · simp [hend] at hrest
  obtain ⟨rfl, -⟩ := List.cons.inj (hrest.symm.trans hrest')
  obtain ⟨reference, hreference, hstate⟩ := Read.bind_eq_ok.mp (hstep.symm.trans hnext)
  obtain rfl := Except.ok.inj hstate
  have hafter : (s.afterReference label reference cur).RunsTo last := hafter
  obtain ⟨hlower, rfl⟩ := Escape.groupAt_of_absoluteReference hsome hall hreference
  generalize groupAt s.groups backward (Numeral.value digits) = g at hlower hnext hafter
  refine ⟨hlower, ?upper, label, cur, hlabel, ⟨c, tail, hrest, hnext⟩, ?node⟩
  case upper =>
    obtain ⟨-, -, hcheck⟩ := finish_eq_ok_iff.mp hfinish
    have hknown : last.IsKnown (Nat.toDigits 10 g) :=
      checkReferences_eq_ok_iff.mp hcheck _ (hafter.references_subset List.mem_cons_self)
    rw [IsKnown, if_pos (Numeral.isDigitText_toDigits g)] at hknown
    obtain ⟨number, hnumber, -, hle⟩ := hknown
    obtain ⟨-, -, -, rfl⟩ := Numeral.read_eq_ok_iff.mp hnumber
    rwa [Numeral.value_toDigits] at hle
  case node =>
    have hexplicit : (label (Nat.toDigits 10 g)).isImplicit = false := by
      rcases hlabel with rfl | rfl <;> rfl
    have hmem := hafter.explicit_subset ((mem_explicit_addLeaf hexplicit).mpr (.inr rfl))
    rw [← (IsNormal.of_runsTo hlast).explicit_finish hfinish] at hmem
    exact ⟨_, (Node.mem_explicit.mp hmem).1, rfl, rfl, rfl⟩

/-- A text is not parsed if a relative reference in it leads back past the
    first group, and for this very reason if the offset can be read. -/
theorem parse_of_backward (hruns : (initial text).RunsTo s) (hsome : digits ≠ [])
    (hall : digits.all isDecimal = true) (hshows : ShowsOffset true digits s.cur.rest)
    (hlt : s.groups < Numeral.value digits) :
    ∃ e, Pattern.parse text = .error e ∧ (digits.length ≤ Numeral.maxDigits →
      e = .malformed ⟨.referenceBeforeFirst (offsetText true digits), s.cur.pos, text⟩) := by
  cases hparse : Pattern.parse text with
  | ok p =>
    have hlower := (standsFor_of_parse hparse hruns hsome hall hshows).lower
    rw [groupAt_backward (Nat.one_le_of_lt hlt)] at hlower
    omega
  | error e =>
    refine ⟨e, rfl, fun hlength => ?_⟩
    obtain ⟨c, tail, label, cur, hrest, -, hstep⟩ := step_offset hsome hall hshows
    rw [Escape.absoluteReference_of_lt hsome hall hlength hlt] at hstep
    exact Except.error.inj (hparse.symm.trans (Pattern.parse_of_step_error hruns hrest hstep))

/-- A text is not parsed if it ends before the group opens to which a
    relative reference in it leads. -/
theorem parse_of_forward {last : ParserState} (hruns : (initial text).RunsTo s)
    (hsome : digits ≠ []) (hall : digits.all isDecimal = true)
    (hshows : ShowsOffset false digits s.cur.rest) (hlast : (initial text).RunsTo last)
    (hend : last.cur.rest = []) (hlt : last.groups < s.groups + Numeral.value digits) :
    ∃ e, Pattern.parse text = .error e := by
  cases hparse : Pattern.parse text with
  | error e => exact ⟨e, rfl⟩
  | ok p =>
    have hupper := (standsFor_of_parse hparse hruns hsome hall hshows).upper
    obtain ⟨last', root, hlast', hend', -, rfl⟩ := Pattern.parse_eq_ok_iff.mp hparse
    -- the parse ended in the same state
    rcases (hlast'.to_end hlast hend).cases_head with rfl | ⟨_, ⟨c, tail, hrest, -⟩, -⟩
    · exact absurd hupper (Nat.not_le.mpr hlt)
    · simp [hend'] at hrest

end ParserState

end RegexInsight
